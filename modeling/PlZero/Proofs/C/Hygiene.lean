import PlZero.Proofs.C.Distinct
import PlZero.Proofs.C.Resolution

/-!
# Hygiene of the declarations in the output

The output consists of templates, into which the names of a program are put. So two things could go
wrong: C could refuse two declarations of one name in one scope, and a declaration of the program
could take away a name that a template uses.

* **Declarations.** What the head of a declaration declares comes on top of the innermost frame
  (`declared_in_frame`), in which all names are different (`Source.Accepted.distinct`).
* **Words.** The words of a template, apart from the name that has been put into it, are reserved
  (`Fragment.ownWords`), and what a program declares is not (`free_of_declares`).
* **Meaning.** So the words of a template mean what the preamble declares, wherever the template is
  written (`resolve_own_word`): between the preamble and this place nothing is declared but names
  that are not reserved, and the parameters of the main function.

The names `text`, `end` and `value`, which the preamble uses for itself, are not reserved. Nothing
is declared in front of the preamble, so what is in there means the same in every output.
-/

namespace PlZero

open C (Reader specifiers)

variable {items : List Item} {s t : State} {frames : List (List C.Symbol)} {x w : String}
  {f : Fragment} {before after : List Fragment}

/-! ### Declarations of the output -/

theorem Fragment.used_of_declares {y : Kind × String} (h : f.declares? = some y) :
    f.used? = none := by
  cases f <;> first | rfl | cases h

/-- Declarations are written among the declarations of a block, and the main function behind all
declarations of the program. -/
theorem Site.of_declares {p : Place} {kind : Kind} (h : Site items s p f)
    (hf : f.declares? = some (kind, x)) :
    (∃ b, p = .declarations b) ∧
      (f = .mainHead ∨ f = declarationHead kind x ∧ isReserved x = false) := by
  cases h with
  | own lead_eq =>
    cases f with
    | mainHead =>
      cases p with
      | declarations b => exact ⟨⟨b, rfl⟩, .inl rfl⟩
      | _ => cases lead_eq
    | constantHead | variableHead | procedureHead => cases p <;> cases lead_eq
    | _ => cases hf
  | slot visited step_eq not_written lead_eq fill_eq =>
    rcases fill_cases not_written fill_eq with
      ⟨kind', y, rfl, -, rfl, hdeclare⟩ | ⟨use, y, -, -, hused⟩ | ⟨-, hnone⟩
    · obtain ⟨rfl, rfl⟩ := Prod.mk.inj
        (Option.some.inj ((declares_declarationHead kind' y).symm.trans hf))
      refine ⟨?_, .inr ⟨rfl, (newest_of_declareName hdeclare).1⟩⟩
      cases p with
      | declarations b => exact ⟨b, rfl⟩
      | _ => cases kind' <;> cases lead_eq
    · cases (Fragment.used_of_declares hf).symm.trans hused
    · cases hnone.symm.trans hf

/-- **What a fragment declares is added to the innermost frame.** -/
theorem declared_in_frame {kind : Kind} (hrun : compileItems items = .ok () t)
    (hsplit : t.fragments = before ++ f :: after) (hf : f.declares? = some (kind, x)) :
    ∃ top rest, (Reader.start.read (cTokens before)).frames = top :: rest ∧
      declaredSymbol kind x (cTokens before).length :: top ∈
        ((Reader.start.read (cTokens before)).read f.tokens).frames := by
  obtain ⟨goals, s, p, hvisited, rfl, hp, hsite⟩ := exists_site hrun hsplit
  obtain ⟨⟨b, rfl⟩, hhead⟩ := hsite.of_declares hf
  obtain ⟨-, below, tail, rest, ds, ys, -, -, -, -, hr⟩ := hp
  refine ⟨ys ++ tail, rest, hr.frames_eq, ?_⟩
  rw [← s.position_reader]
  change _ ∈ (s.reader.read f.tokens).frames
  rcases hhead with rfl | ⟨rfl, hfree⟩
  · cases hf
    rw [(read_mainHead hr).frames_eq]
    simp
  · have hx := not_mem_specifiers_of_free hfree
    cases kind with
    | constant => simp [declarationHead, (read_constantHead hr hx).frames_eq]
    | procedure => simp [declarationHead, (read_procedureHead hr hx).frames_eq]
    | _ => simp [declarationHead, (read_variableHead hr hx).frames_eq]

/-- **No declaration of the output has a reserved name**, apart from the main function. -/
theorem free_of_declares {kind : Kind} (hrun : compileItems items = .ok () t)
    (hmem : declarationHead kind x ∈ t.fragments) : isReserved x = false := by
  obtain ⟨before, after, hsplit⟩ := List.append_of_mem hmem
  obtain ⟨goals, s, p, hvisited, -, hp, hsite⟩ := exists_site hrun hsplit
  rcases (hsite.of_declares (declares_declarationHead kind x)).2 with hmain | ⟨-, hfree⟩
  · cases kind <;> cases hmain
  · exact hfree

/-! ### Words of templates -/

/-- The name of the program that a fragment holds. -/
def Fragment.name? : Fragment → Option String
  | constantHead x | variableHead x | procedureHead x | name x | call x | read _ x | printArray x _
  | print _ (.name x) => some x
  | _ => none

/-- It has been declared there, or is used. -/
theorem Fragment.name_cases (h : f.name? = some x) :
    f.used? = some x ∨ ∃ kind, f = declarationHead kind x := by
  cases f with
  | constantHead => cases h; exact .inr ⟨.constant, rfl⟩
  | variableHead => cases h; exact .inr ⟨.variable, rfl⟩
  | procedureHead => cases h; exact .inr ⟨.procedure, rfl⟩
  | print form o => cases o <;> exact .inl h
  | _ => exact .inl h

/-- All words among the tokens but `x` are reserved, and none of these is a parameter of the main
function. -/
def OwnWords (x : Option String) (ts : List C.Token) : Prop :=
  ∀ w, .word w ∈ ts → x ≠ some w → isReserved w = true ∧ w ∉ ReservedName.mainParameters

namespace OwnWords

variable {x? : Option String} {ts us : List C.Token}

theorem word (h : OwnWords (some x) ts) : OwnWords (some x) (.word x :: ts) := by
  intro w hw hx
  rcases List.mem_cons.mp hw with heq | hw
  · cases heq
    exact absurd rfl hx
  · exact h w hw hx

theorem other {c : C.Token} (hc : ∀ w, c ≠ .word w) (h : OwnWords x? ts) :
    OwnWords x? (c :: ts) := by
  intro w hw hx
  rcases List.mem_cons.mp hw with heq | hw
  · exact absurd heq.symm (hc w)
  · exact h w hw hx

/-- Words of C alone. -/
theorem of_only (h : onlyReserved ts = true ∧ .word "argc" ∉ ts ∧ .word "argv" ∉ ts) :
    OwnWords x? ts := by
  obtain ⟨hreserved, hargc, hargv⟩ := h
  intro w hw _
  have hword := List.all_eq_true.mp hreserved _ hw
  refine ⟨hword, fun hparameter => ?_⟩
  simp only [ReservedName.mainParameters, List.mem_cons, List.not_mem_nil, or_false] at hparameter
  rcases hparameter with rfl | rfl
  · exact hargc hw
  · exact hargv hw

theorem behind (ts : List C.Token)
    (ht : onlyReserved ts = true ∧ .word "argc" ∉ ts ∧ .word "argv" ∉ ts)
    (hu : OwnWords x? us) : OwnWords x? (ts ++ us) := by
  intro w hw
  exact (List.mem_append.mp hw).elim (of_only ht w) (hu w)

end OwnWords

/-- **The words of a template are reserved**, apart from the name that it is for. -/
theorem Fragment.ownWords (hf : f ≠ .preamble ∧ f ≠ .mainHead) : OwnWords f.name? f.tokens := by
  cases f with
  | preamble => exact absurd rfl hf.1
  | mainHead => exact absurd rfl hf.2
  | mark m | number n => exact .other nofun (.of_only (by decide +kernel))
  | constantValue n => exact .other nofun (.of_only (by decide +kernel))
  | arrayBound n => exact .other nofun (.other nofun (.of_only (by decide +kernel)))
  | bodyEnd b => cases b <;> exact .of_only (by decide +kernel)
  | name x | call x => exact .word (.of_only (by decide +kernel))
  | variableHead x =>
    exact .behind [.word "long"] (by decide +kernel) (.word (.of_only (by decide +kernel)))
  | constantHead x =>
    exact .behind [.word "const", .word "long"] (by decide +kernel)
      (.word (.of_only (by decide +kernel)))
  | procedureHead x =>
    exact .behind [.word "void"] (by decide +kernel) (.word (.of_only (by decide +kernel)))
  | read form x =>
    cases form with
    | character => exact .word (.of_only (by decide +kernel))
    | decimal =>
      exact .behind readLineTokens (by decide +kernel)
        (.behind cutLineTokens (by decide +kernel) (.word (.of_only (by decide +kernel))))
  | printText content =>
    exact .behind [.mark "(", .word "void", .mark ")", .word "fputs", .mark "("] (by decide +kernel)
      (.other nofun (.of_only (by decide +kernel)))
  | print form o =>
    have hoperand : OwnWords (print form o).name? [o.token, .mark ")", .mark ";"] := by
      cases o with
      | name x => exact .word (.of_only (by decide +kernel))
      | number n => exact .other nofun (.of_only (by decide +kernel))
    cases form with
    | decimal =>
      exact .behind [.mark "(", .word "void", .mark ")", .word "fprintf", .mark "(",
        .word "stdout", .mark ",", .quoted "\"%ld\"", .mark ",", .mark "(", .word "long",
        .mark ")"] (by decide +kernel) hoperand
    | character =>
      exact .behind [.mark "(", .word "void", .mark ")", .word "fprintf", .mark "(",
        .word "stdout", .mark ",", .quoted "\"%c\"", .mark ",", .mark "(", .word "unsigned",
        .word "char", .mark ")"] (by decide +kernel) hoperand
  | printArray x n =>
    have hput : OwnWords (some x) (.word x :: [.mark "[", .word "__writestridx", .mark "++",
        .mark "]", .mark ")", .mark ";"]) := .word (.of_only (by decide +kernel))
    have htest : OwnWords (some x) (.mark "&&" :: .word x :: ([.mark "[", .word "__writestridx",
        .mark "]", .mark "!=", .quoted "'\\0'", .mark ")", .mark "(", .word "void", .mark ")",
        .word "putchar", .mark "(", .mark "(", .word "unsigned", .word "char", .mark ")"] ++ _)) :=
      .other nofun (.word (.behind _ (by decide +kernel) hput))
    exact .behind startTokens (by decide +kernel)
      (.behind [.word "while", .mark "(", .word "__writestridx", .mark "<"] (by decide +kernel)
        (.other nofun htest))
  | _ => exact .of_only (by decide +kernel)

/-- The names that the frame around a program gives away although a program may declare them: that
of the main function, which stands behind all that is global, and those in the body of the function
that reads numbers, which stands in front of it. -/
def frameNames : List String := ["main", "text", "end", "value"]

/-- The words among the tokens. -/
def C.words (ts : List C.Token) : List String :=
  ts.filterMap fun
    | .word w => some w
    | _ => none

theorem C.mem_words {ts : List C.Token} (hw : .word w ∈ ts) : w ∈ C.words ts :=
  List.mem_filterMap.mpr ⟨.word w, hw, rfl⟩

/-- **No name that may be declared is a word of a template**, apart from those that the frame has
for itself. -/
theorem reserved_of_word (hw : .word w ∈ f.tokens) (hname : f.name? ≠ some w)
    (hframe : w ∉ frameNames) : isReserved w = true := by
  have hall : ∀ w ∈ C.words Fragment.preamble.tokens ++ C.words Fragment.mainHead.tokens,
      isReserved w = true ∨ w ∈ frameNames := by decide +kernel
  have hends (hmem : w ∈ C.words Fragment.preamble.tokens ++ C.words Fragment.mainHead.tokens) :
      isReserved w = true := (hall w hmem).resolve_right hframe
  by_cases hpreamble : f = .preamble
  · exact hends (List.mem_append_left _ (hpreamble ▸ C.mem_words hw))
  · by_cases hmain : f = .mainHead
    · exact hends (List.mem_append_right _ (hmain ▸ C.mem_words hw))
    · exact (Fragment.ownWords ⟨hpreamble, hmain⟩ w hw hname).1

example : ∀ w ∈ ["__stdin", "__writestridx", "__pl0_parse_int", "fgets", "strlen", "NULL", "sizeof",
    "stdin", "stdout", "fprintf", "fputs", "putchar", "fgetc", "long", "char"],
    isReserved w = true := by
  decide +kernel

/-! ### What the words of templates mean -/

/-- A reserved name is found only among what the preamble declares. -/
theorem Clean.find? (h : Clean frames) (hw : isReserved w = true)
    (hparameter : w ∉ ReservedName.mainParameters) :
    frames.flatten.find? (fun y => y.name = w) = preambleFrame.find? fun y => y.name = w := by
  obtain ⟨upper, hflatten, hupper⟩ := h.free
  have hnone : upper.find? (fun y => y.name = w) = none := by
    refine List.find?_eq_none.mpr fun y hy hname => ?_
    obtain rfl : y.name = w := by simpa using hname
    rcases hupper y hy with hfree | hmem
    · rw [hw] at hfree
      cases hfree
    · exact hparameter hmem
  rw [hflatten, List.find?_append, hnone, Option.none_or]

/-- The name that a fragment holds is no word of a type, wherever the fragment is written. -/
theorem Site.not_mem_specifiers {p : Place} (h : Site items s p f)
    (hp : Sited items p s.depth s.scope s.reader) (hx : f.name? = some x) : x ∉ specifiers := by
  rcases Fragment.name_cases hx with hused | ⟨kind, rfl⟩
  · cases h with
    | own lead_eq => cases (Fragment.lead_of_used hused p).symm.trans lead_eq
    | slot visited step_eq not_written lead_eq fill_eq =>
      rcases fill_cases not_written fill_eq with
        ⟨kind, y, -, -, rfl, -⟩ | ⟨use, y, huse, hname, hy⟩ | ⟨hnone, -⟩
      · cases kind <;> cases hused
      · obtain rfl := Option.some.inj (hy.symm.trans hused)
        obtain ⟨b, n, rfl, -⟩ := Slot.lead_of_use huse lead_eq
        obtain ⟨-, frames, hbody, -⟩ := hp
        rw [hname] at fill_eq
        obtain ⟨d, hd, -⟩ := fill_name huse fill_eq
        exact hbody.not_mem_specifiers hd
      · cases hnone.symm.trans hused
  · rcases (h.of_declares (declares_declarationHead kind x)).2 with hmain | ⟨-, hfree⟩
    · cases kind <;> cases hmain
    · exact not_mem_specifiers_of_free hfree

/-- **Inside a fragment its own words mean what they mean in front of it.** -/
theorem Fragment.lookup_in {r : Reader} {i : Nat} (hf : f ≠ .preamble ∧ f ≠ .mainHead)
    (hr : r.At .plain frames) (hx : ∀ x, f.name? = some x → x ∉ specifiers)
    (hw : f.tokens[i]? = some (.word w)) (hname : f.name? ≠ some w) :
    (r.read (f.tokens.take i)).lookup w = r.lookup w := by
  -- Most fragments leave the frames as they are.
  have hquiet (hf : f.IsQuiet) : (r.read (f.tokens.take i)).lookup w = r.lookup w := by
    simp only [Reader.lookup, (hf.read hr).2 i, hr.frames_eq]
  have hmem := List.mem_of_getElem? hw
  obtain ⟨position, rfl⟩ := hr.exists_eq
  cases f with
  | preamble => exact absurd rfl hf.1
  | mainHead => exact absurd rfl hf.2
  | name x | call x | read form x | printArray x n => exact hquiet (hx x rfl)
  | print form o =>
    cases o with
    | name x => exact hquiet (hx x rfl)
    | number n => exact hquiet trivial
  | arrayBound n | blockHead | blockEnd => simp [Fragment.tokens] at hmem
  | constantHead x =>
    rcases i with _ | _ | _ | _ | i
    · rfl
    · rfl
    · cases hw
      exact absurd rfl hname
    · cases hw
    · cases hw
  | variableHead x =>
    rcases i with _ | _ | i
    · rfl
    · cases hw
      exact absurd rfl hname
    · cases hw
  | procedureHead x =>
    rcases i with _ | _ | _ | _ | _ | _ | i
    · rfl
    · cases hw
      exact absurd rfl hname
    · cases hw
    · -- In the parentheses the procedure has been declared.
      have hne : x ≠ w := fun h => hname (congrArg some h)
      have hvoid : "void" ∈ specifiers := by decide
      cases frames <;>
        simp [Fragment.tokens, Reader.read, Reader.step, Reader.react, Reader.declare,
          Reader.revise, Reader.lookup, hx x rfl, hvoid, hne]
    · cases hw
    · cases hw
    · cases hw
  | bodyEnd b =>
    cases b with
    | procedure => simp [Fragment.tokens] at hmem
    | program =>
      rcases i with _ | _ | _ | _ | _ | i
      · cases hw
      · rfl
      · cases hw
      · cases hw
      · cases hw
      · cases hw
  | _ => exact hquiet trivial

/-- **The words of templates mean what the preamble declares**, and nothing that a program does. -/
theorem resolve_own_word {i : Nat} (hrun : compileItems items = .ok () t)
    (hsplit : t.fragments = before ++ f :: after) (hf : f ≠ .preamble ∧ f ≠ .mainHead)
    (hw : f.tokens[i]? = some (.word w)) (hname : f.name? ≠ some w) :
    C.resolve (cTokens t.fragments) ((cTokens before).length + i) =
      preambleFrame.find? fun y => y.name = w := by
  obtain ⟨goals, s, p, hvisited, rfl, hp, hsite⟩ := exists_site hrun hsplit
  have hmem := List.mem_of_getElem? hw
  obtain ⟨frames, hr, hclean⟩ := hsite.exists_clean hvisited hp hf.1 hmem (.inl ⟨w, rfl⟩)
  obtain ⟨hreserved, hparameter⟩ := Fragment.ownWords hf w hmem hname
  have htokens : cTokens t.fragments = cTokens s.fragments ++ f.tokens ++ cTokens after := by
    simp [hsplit]
  rw [htokens, resolve_in rfl hw]
  calc
    _ = s.reader.lookup w :=
      Fragment.lookup_in hf hr (fun x => hsite.not_mem_specifiers hp) hw hname
    _ = frames.flatten.find? fun y => y.name = w := by rw [Reader.lookup, hr.frames_eq]
    _ = _ := hclean.find? hreserved hparameter

/-- What a name means has nothing to do with what comes behind it. -/
theorem C.resolve_append {ts us : List C.Token} {i : Nat} (hi : i < ts.length) :
    C.resolve (ts ++ us) i = C.resolve ts i := by
  simp only [C.resolve, List.getElem?_append_left hi, List.take_append_of_le_length hi.le]

/-! ### Accepted texts -/

/-- **The declarations of the output are hygienic.** The output of an accepted text is the preamble,
with three names of its own, what is global, and the main function. What a fragment declares comes
on top of the innermost frame, and in each frame, wherever one is, the names are different. What the
program declares is not reserved and is no word of any template, apart from the names that the frame
around the program has for itself. So the words of a template mean what the preamble declares, and
those of the preamble what they mean in the preamble alone. -/
theorem hygiene_of_accepted (source : Source)
    (h : ((compile source).deliver .unlimited).failure? = none) :
    let fragments := (compileItems source.items).state.fragments
    let tokens := C.tokens (compile source).text
    tokens = cTokens fragments ∧
    (∃ globals body, fragments =
      .preamble :: (globals ++ .mainHead :: (body ++ [.bodyEnd .program, .trailer]))) ∧
    (Reader.start.read Fragment.preamble.tokens).frames = [preambleFrame] ∧
    (∀ before f after kind x, fragments = before ++ f :: after → f.declares? = some (kind, x) →
      ∃ top rest, (Reader.start.read (cTokens before)).frames = top :: rest ∧
        declaredSymbol kind x (cTokens before).length :: top ∈
          ((Reader.start.read (cTokens before)).read f.tokens).frames) ∧
    (∀ n, ∀ frame ∈ (Reader.start.read (tokens.take n)).frames,
      (frame.map C.Symbol.name).Nodup) ∧
    (∀ kind x, declarationHead kind x ∈ fragments → isReserved x = false ∧
      ∀ (f : Fragment) w, .word w ∈ f.tokens → f.name? ≠ some w → w ∉ frameNames → x ≠ w) ∧
    (∀ before f after i w, fragments = before ++ f :: after → f ≠ .preamble → f ≠ .mainHead →
      f.tokens[i]? = some (.word w) → f.name? ≠ some w →
        C.resolve tokens ((cTokens before).length + i) =
          preambleFrame.find? fun y => y.name = w) ∧
    ∀ i < Fragment.preamble.tokens.length,
      C.resolve tokens i = C.resolve Fragment.preamble.tokens i := by
  obtain ⟨t, globals, body, hrun, htokens, hfragments⟩ := Source.Accepted.exists_fragments h
  have hstate : (compileItems source.items).state = t := by rw [hrun, Outcome.state]
  simp only [hstate]
  refine ⟨htokens, ⟨globals, body, hfragments⟩, read_preamble.frames_eq, ?_,
    Source.Accepted.distinct h, ?_, ?_, ?_⟩
  · exact fun before f after kind x hsplit hf => declared_in_frame hrun hsplit hf
  · intro kind x hmem
    have hfree := free_of_declares hrun hmem
    refine ⟨hfree, fun f w hw hname hframe heq => ?_⟩
    rw [heq, reserved_of_word hw hname hframe] at hfree
    cases hfree
  · intro before f after i w hsplit hpreamble hmain hw hname
    rw [htokens]
    exact resolve_own_word hrun hsplit ⟨hpreamble, hmain⟩ hw hname
  · intro i hi
    rw [htokens, hfragments, cTokens_cons]
    exact C.resolve_append hi

/-- A program with a variable, and a variable of a procedure that hides it and has the name of the
parameter in the preamble. -/
theorem hygiene_of_hidden :
    let source : Source :=
      ⟨"text.pl0", "var text; procedure p; var text; readInt text; call p."⟩
    let before : List Fragment := [.preamble, .variableHead "text", .variableEnd, .variablesEnd,
      .procedureHead "p", .variableHead "text", .variableEnd, .variablesEnd]
    let tokens := C.tokens (compile source).text
    ((compile source).deliver .unlimited).failure? = none ∧
      (∃ after, (compileItems source.items).state.fragments =
        before ++ .read .decimal "text" :: after) ∧
      (∀ n, ∀ frame ∈ (Reader.start.read (tokens.take n)).frames,
        (frame.map C.Symbol.name).Nodup) ∧
      C.resolve tokens ((cTokens before).length + 4) =
        some ⟨"__stdin", 6, false, false, some "24"⟩ := by
  intro source before tokens
  have haccepted : ((compile source).deliver .unlimited).failure? = none := by decide +kernel
  have hfragments : (compileItems source.items).state.fragments = before ++ .read .decimal "text" ::
      [.bodyEnd .procedure, .mainHead, .call "p", .bodyEnd .program, .trailer] := by decide +kernel
  obtain ⟨-, -, -, -, hdistinct, -, hresolve, -⟩ := hygiene_of_accepted source haccepted
  refine ⟨haccepted, ⟨_, hfragments⟩, hdistinct, ?_⟩
  exact hresolve before (.read .decimal "text") _ 4 "__stdin" hfragments nofun nofun rfl nofun

end PlZero
