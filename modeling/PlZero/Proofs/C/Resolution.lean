import PlZero.Proofs.C.Brackets
import PlZero.Proofs.C.Sites

/-!
# What names mean in the output

A name that is written in a statement or an expression means to C what the compiler has found for it
in the scope (`name_resolves`): the frames that are open there are aligned with the scope, and the
fragment in which the name stands leaves them as they are.

The statements and expressions of the output use no other names than those that the compiler has
looked up (`Source.Accepted.exists_writes`).
-/

namespace PlZero

open Goal
open C (Reader specifiers)

variable {source : Source} {items : List Item} {gs : List Goal} {s t : State} {slot : Slot}
  {use : Use} {x : String} {d : Declaration} {f : Fragment}

/-- Compiling the text, `slot` is filled in the state `s` with the name `x`, and `f` is written. -/
def Source.Writes (source : Source) (slot : Slot) (s : State) (x : String) (f : Fragment) : Prop :=
  s.lookahead.value = .name x ∧ (∃ gs, Visited source.items (.fill slot :: gs) s) ∧
    ∃ scope, slot.fill s.depth s.scope (.name x) = .ok (scope, some f)

/-- The declaration `d`, which is visible in the state `s`, has been made where the output declares
the symbol `y`. -/
def Source.Declares (source : Source) (s : State) (d : Declaration) (y : C.Symbol) : Prop :=
  ∃ newer s₀ head, source.Writes (.declared d.kind) s₀ d.name head ∧
    s.scope.newestFirst = newer ++ d :: s₀.scope.newestFirst ∧
    cTokens s₀.fragments ++ head.tokens <+: C.tokens (compile source).text ∧
    y = { declaredSymbol d.kind d.name (cTokens s₀.fragments).length with
      bound := d.size.map fun n : Nat => Text.decimal n }

/-! ### Frames around a name -/

/-- A token in the middle of a text. -/
theorem getElem?_middle {before ts rest : List C.Token} {i : Nat} {c : C.Token}
    (hi : ts[i]? = some c) : (before ++ ts ++ rest)[before.length + i]? = some c := by
  have hlt : i < ts.length := (List.getElem?_eq_some_iff.mp hi).1
  rw [List.append_assoc, List.getElem?_append_right (by omega), Nat.add_sub_cancel_left,
    List.getElem?_append_left hlt, hi]

/-- A reader that has got to a fragment which leaves the frames looks names up in these frames. -/
theorem resolve_in {before ts rest : List C.Token} {frames : List (List C.Symbol)} {i : Nat}
    (hframes : ((Reader.start.read before).read (ts.take i)).frames = frames)
    (hi : ts[i]? = some (.word x)) :
    C.resolve (before ++ ts ++ rest) (before.length + i) =
      frames.flatten.find? fun y => y.name = x := by
  have hlt : i < ts.length := (List.getElem?_eq_some_iff.mp hi).1
  have htoken : (before ++ ts ++ rest)[before.length + i]? = some (.word x) := getElem?_middle hi
  have htake : (before ++ ts ++ rest).take (before.length + i) = before ++ ts.take i := by
    rw [List.append_assoc, List.take_length_add_append, List.take_append_of_le_length hlt.le]
  simp only [C.resolve, htoken, htake, Reader.lookup, C.Reader.read_append, hframes]

/-- A name in a statement or an expression is in a body, whose frames are aligned with the scope. -/
theorem exists_frames (hvisited : Visited items (.fill slot :: gs) s)
    (huse : slot.use? = some use) (hd : s.scope.lookup x = some d) (hne : d ≠ .main) :
    ∃ frames newer older y, s.reader.At .plain frames ∧
      frames.flatten.find? (fun y => y.name = x) = some y ∧
        s.scope.newestFirst = newer ++ d :: older ∧ Stands items d older y := by
  obtain ⟨p, q, hp, hq, -⟩ := hvisited.exists_leadOn
  obtain ⟨b, n, rfl, -⟩ := Slot.lead_of_use huse hq
  obtain ⟨-, frames, hframes, hr⟩ := hp
  obtain ⟨newer, older, y, hy, hnewest, hstands⟩ := hframes.find? hd hne
  exact ⟨_, newer, older, y, hr, by simpa using hy, hnewest, hstands⟩

/-- The fragment that is written for a name that can be declared declares nothing. -/
theorem quiet_fragmentFor (huse : slot.use? = some use) (hfree : isReserved d.name = false) :
    (slot.fragmentFor d).IsQuiet := by
  have hname := not_mem_specifiers_of_free hfree
  cases slot with
  | skipped | written | declared | constantValue | arrayBound | relation => cases huse
  | _ => exact hname

/-! ### Accepted texts -/

/-- An accepted text is compiled to an end, and the output has the tokens that have been written. -/
theorem Source.Accepted.exists_run (h : source.Accepted) :
    ∃ t, compileItems source.items = .ok () t ∧
      C.tokens (compile source).text = cTokens t.fragments := by
  obtain ⟨p, hp, -⟩ := h.exists_tree
  obtain ⟨-, t, hrun, hfragments⟩ := hp.finished h
  exact ⟨t, hrun, by rw [hp.tokens_compile h, hfragments]⟩

/-- What is written for the name of a slot stands in the output, behind what has been written. -/
theorem Source.Writes.exists_step (h : source.Accepted) (hwrites : source.Writes slot s x f) :
    ∃ gs s' t, Visited source.items (.fill slot :: gs) s ∧ step (.fill slot) s = .ok [] s' ∧
      slot.fill s.depth s.scope (.name x) = .ok (s'.scope, some f) ∧
      s'.fragments = s.fragments ++ [f] ∧
      run gs s' = .ok () t ∧ C.tokens (compile source).text = cTokens t.fragments := by
  obtain ⟨hname, ⟨gs, hvisited⟩, scope, hfill⟩ := hwrites
  obtain ⟨t, hrun, htokens⟩ := h.exists_run
  rw [← hvisited.run_eq] at hrun
  obtain ⟨more, s', hstep, hrest⟩ := PlZero.exists_step hrun
  obtain ⟨rfl, f', hfill', -, hfragments⟩ := step_fill hstep
  rw [hname, hfill] at hfill'
  obtain ⟨rfl, rfl⟩ := Prod.mk.inj (Except.ok.inj hfill')
  exact ⟨gs, s', t, hvisited, hstep, hfill, hfragments, hrest, htokens⟩

/-- What stands for a declaration is declared in the output. -/
theorem Stands.declares (h : source.Accepted) {newer older : List Declaration} {y : C.Symbol}
    (hnewest : s.scope.newestFirst = newer ++ d :: older)
    (hstands : Stands source.items d older y) :
    source.Declares s d y := by
  obtain ⟨-, -, gs, s₀, hvisited, hname, rfl, rfl⟩ := hstands
  obtain ⟨t, hrun, htokens⟩ := h.exists_run
  rw [← hvisited.run_eq] at hrun
  obtain ⟨more, s₁, hstep, hrest⟩ := PlZero.exists_step hrun
  obtain ⟨-, head, hfill, -, hfragments⟩ := step_fill hstep
  rw [hname] at hfill
  obtain ⟨-, rfl⟩ := Slot.fill_declared hfill
  refine ⟨newer, s₀, _, ⟨hname, ⟨gs, hvisited⟩, _, hfill⟩, hnewest, ?_, rfl⟩
  obtain ⟨fs, hfs⟩ := fragments_of_run hrest
  exact ⟨cTokens fs, by rw [htokens, ← hfs, hfragments]; simp⟩

/-- A bracket follows a name that is written for a use just if the name has been declared with a
size. -/
theorem Source.Writes.bracket (h : source.Accepted)
    (hwrites : source.Writes slot s d.name (slot.fragmentFor d)) (huse : slot.use? = some use)
    (hcallee : slot ≠ .callee) (hd : s.scope.lookup d.name = some d) (hsize : slot.SizeFits d.size)
    (hfree : isReserved d.name = false) {i : Nat}
    (hi : (slot.fragmentFor d).tokens[i]? = some (.word d.name)) :
    (C.tokens (compile source).text)[(cTokens s.fragments).length + i + 1]? = some (.mark "[") ↔
      d.size ≠ none := by
  obtain ⟨gs, s', t, hvisited, -, hfill, hfragments, hrun, hout⟩ := hwrites.exists_step h
  have htokens : cTokens s'.fragments = cTokens s.fragments ++ (slot.fragmentFor d).tokens := by
    simp [hfragments]
  by_cases hslot : slot = .target ∨ slot = .operand
  · -- The next goal is the index.
    obtain ⟨gs, rfl⟩ := index_of_visited hvisited hslot hwrites.1
    obtain ⟨d', hd', -, -, hscope, -⟩ := fill_name huse hfill
    have hchain := (List.isChain_cons.mp hvisited.chain).2
    obtain ⟨ts, hts, hbracket⟩ := bracket_behind (hscope ▸ hd) hrun hchain
    have hname : (slot.fragmentFor d).tokens = [.word d.name] := by
      rcases hslot with rfl | rfl <;> rfl
    rw [hname] at hi htokens
    obtain rfl : i = 0 := by
      have hlt := (List.getElem?_eq_some_iff.mp hi).1
      simpa using hlt
    rw [hout, hts, htokens, List.getElem?_append_right (by simp), ← hbracket]
    simp [List.head?_eq_getElem?]
  · -- The name stands in a template.
    obtain ⟨fs, hfs⟩ := fragments_of_run hrun
    obtain ⟨htarget, hoperand⟩ := not_or.mp hslot
    obtain ⟨m, hbefore, hm⟩ := bracket_in hfree huse ⟨htarget, hoperand, hcallee⟩
    rw [hout, ← hfs, cTokens_append, htokens, Nat.add_assoc, getElem?_middle (hbefore i hi)]
    have hfits : slot = .printedText ↔ d.size ≠ none := by
      cases slot with
      | skipped | written | declared | constantValue | arrayBound | relation => cases huse
      | target | operand | callee => contradiction
      | printed form | stored form => simp [show d.size = none from hsize]
      | printedText => exact iff_of_true rfl hsize
    rw [← hfits, ← hm]
    simp

/-- **What a name that is written for a use means in the output**, unless the program is to call
itself. -/
theorem Source.Writes.resolves (h : source.Accepted) (hwrites : source.Writes slot s x f)
    (huse : slot.use? = some use) (hmain : use = .callee → x ≠ "main") :
    ∃ d y, s.scope.lookup x = some d ∧ use.Allows d.kind ∧ slot.SizeFits d.size ∧
      isReserved d.name = false ∧ (d.size ≠ none → d.kind = .variable) ∧ f = slot.fragmentFor d ∧
        source.Declares s d y ∧ ∀ i, f.tokens[i]? = some (.word x) →
          C.resolve (C.tokens (compile source).text) ((cTokens s.fragments).length + i) =
            some y := by
  obtain ⟨gs, s', t, hvisited, hstep, hfill, hfragments, hrun, hout⟩ := hwrites.exists_step h
  obtain ⟨d, hd, hallows, hsize, hscope, hf⟩ := fill_name huse hfill
  obtain rfl := Option.some.inj hf
  obtain rfl := name_of_lookup hd
  have hne : d ≠ .main := by
    rintro rfl
    cases use with
    | target => cases hallows
    | operand => exact hallows rfl
    | callee => exact hmain rfl rfl
  obtain ⟨frames, newer, older, y, hr, hy, hnewest, hstands⟩ := exists_frames hvisited huse hd hne
  have hquiet := (quiet_fragmentFor huse hstands.free).read hr
  obtain ⟨fs, hfs⟩ := fragments_of_run hrun
  have hsplit : C.tokens (compile source).text =
      cTokens s.fragments ++ (slot.fragmentFor d).tokens ++ cTokens fs := by
    simp [hout, ← hfs, hfragments]
  refine ⟨d, y, hd, hallows, hsize, hstands.free, hstands.variable_of_size, rfl,
    hstands.declares h hnewest, fun i hi => ?_⟩
  rw [hsplit, resolve_in (hquiet.2 i) hi, hy]

/-! ### The names in the output -/

/-- The name that a statement or an expression uses in the fragment. -/
def Fragment.used? : Fragment → Option String
  | name x | call x | read _ x | printArray x _ | print _ (.name x) => some x
  | _ => none

/-- No goal that stands for a fixed fragment uses a name. -/
theorem Fragment.lead_of_used (hf : f.used? = some x) (p : Place) : f.lead p = none := by
  cases f with
  | name | call | read | printArray | print => cases p <;> rfl
  | _ => cases hf

/-- What a fragment declares: a kind of thing, and its name. -/
def Fragment.declares? : Fragment → Option (Kind × String)
  | constantHead x => some (.constant, x)
  | variableHead x => some (.variable, x)
  | procedureHead x => some (.procedure, x)
  | mainHead => some (.procedure, "main")
  | _ => none

@[simp]
theorem declares_declarationHead (kind : Kind) (x : String) :
    (declarationHead kind x).declares? = some (kind, x) := by
  cases kind <;> rfl

/-- **What a slot without a fragment of its own writes**: the head of a declaration, the fragment of
a name that is used, or neither. -/
theorem fill_cases {depth : Nat} {scope scope' : Scope} {u : Token}
    (hwritten : ∀ t g, slot ≠ .written t g) (h : slot.fill depth scope u = .ok (scope', some f)) :
    (∃ kind x, slot = .declared kind ∧ u = .name x ∧ f = declarationHead kind x ∧
      declareName scope x kind depth = .ok scope') ∨
    (∃ use x, slot.use? = some use ∧ u = .name x ∧ f.used? = some x) ∨
    (f.used? = none ∧ f.declares? = none) := by
  cases Slot.fills_of_fill h with
  | written t => exact absurd rfl (hwritten t f)
  | declared hdeclare => exact .inl ⟨_, _, rfl, rfl, rfl, hdeclare⟩
  | @used slot _ _ huse =>
    refine .inr (.inl ⟨_, _, huse, rfl, ?_⟩)
    cases slot <;> rfl
  | relation r => cases r <;> exact .inr (.inr ⟨rfl, rfl⟩)
  | constantValue | arrayBound | operand | printed | printedText =>
    exact .inr (.inr ⟨rfl, rfl⟩)

/-- A fragment of the output that no goal writes by itself is written by a slot. -/
theorem Source.Accepted.exists_fill (h : source.Accepted) {p : Tree.Program}
    (hp : source.Reads p.tokens) {before after : List Fragment}
    (hsplit : .preamble :: (p.fragments ++ [.trailer]) = before ++ f :: after)
    (hf : ∀ p, f.lead p = none) :
    ∃ slot gs s s', Visited source.items (.fill slot :: gs) s ∧ step (.fill slot) s = .ok [] s' ∧
      (∀ t g, slot ≠ .written t g) ∧ s.fragments = before ∧
        slot.fill s.depth s.scope s.lookahead.value = .ok (s'.scope, some f) := by
  obtain ⟨-, t, hrun, hfragments⟩ := hp.finished h
  obtain ⟨goals, s, place, -, hbefore, -, hsite⟩ := exists_site hrun (hfragments.trans hsplit)
  cases hsite with
  | own lead_eq => cases (hf place).symm.trans lead_eq
  | slot visited step_eq not_written lead_eq fill_eq =>
    exact ⟨_, _, s, _, visited, step_eq, not_written, hbefore, fill_eq⟩

/-- **Each name that is used in the output is written for a use of it.** -/
theorem Source.Accepted.exists_writes (h : source.Accepted) {p : Tree.Program}
    (hp : source.Reads p.tokens) {before after : List Fragment}
    (hsplit : .preamble :: (p.fragments ++ [.trailer]) = before ++ f :: after)
    (hf : f.used? = some x) :
    ∃ slot use s, slot.use? = some use ∧ source.Writes slot s x f ∧ s.fragments = before := by
  obtain ⟨slot, gs, s, s', hvisited, -, hwritten, rfl, hfill⟩ :=
    h.exists_fill hp hsplit (Fragment.lead_of_used hf)
  rcases fill_cases hwritten hfill with
    ⟨kind, y, -, -, rfl, -⟩ | ⟨use, y, huse, hname, hy⟩ | ⟨hnone, -⟩
  · cases kind <;> cases hf
  · obtain rfl := Option.some.inj (hy.symm.trans hf)
    exact ⟨slot, use, s, huse, ⟨hname, ⟨gs, hvisited⟩, _, hname ▸ hfill⟩, rfl⟩
  · rw [hnone] at hf
    cases hf

/-- A call is written for the name of a procedure to call. -/
theorem Source.Writes.eq_call_iff (h : source.Accepted) (hwrites : source.Writes slot s x f)
    (huse : slot.use? = some use) : f = .call x ↔ slot = .callee := by
  obtain ⟨gs, s', t, -, -, hfill, -⟩ := hwrites.exists_step h
  obtain ⟨d, hd, -, -, -, hfragment⟩ := fill_name huse hfill
  obtain rfl := name_of_lookup hd
  obtain rfl := Option.some.inj hfragment
  cases slot <;> simp [Slot.fragmentFor]

/-- **Every name means in C what the compiler has found for it.** Wherever in the output of an
accepted text a name other than that of a procedure is used, it has been looked up in the scope, and
C finds the symbol that is declared for what the scope has found: no function, and no constant where
a number is stored. A bracket follows just if the symbol has a bound, which is that of the loop
where an array is printed. -/
theorem name_resolves (source : Source)
    (h : ((compile source).deliver .unlimited).failure? = none) :
    ∀ p : Tree.Program, source.Reads p.tokens → ∀ before f after x i,
      .preamble :: (p.fragments ++ [.trailer]) = before ++ f :: after →
      f.used? = some x → f ≠ .call x → f.tokens[i]? = some (.word x) →
        ∃ slot use s d y, slot.use? = some use ∧ source.Writes slot s x f ∧ s.fragments = before ∧
          s.scope.lookup x = some d ∧ source.Declares s d y ∧
          C.resolve (C.tokens (compile source).text) ((cTokens before).length + i) = some y ∧
          ((C.tokens (compile source).text)[(cTokens before).length + i + 1]? = some (.mark "[") ↔
            y.bound ≠ none) ∧
          y.isFunction = false ∧ (use = .target → y.isConst = false) ∧
          (y.bound ≠ none → y.isConst = false) ∧
          ∀ n, f = .printArray x n → y.bound = some (Text.decimal n) := by
  intro p hp before f after x i hsplit hf hcall hi
  obtain ⟨slot, use, s, huse, hwrites, rfl⟩ := Source.Accepted.exists_writes h hp hsplit hf
  have hslot : slot ≠ .callee := fun hslot => hcall (hwrites.eq_call_iff h huse |>.mpr hslot)
  have hcallee : use ≠ .callee := by
    rintro rfl
    cases slot <;> cases huse
    exact hslot rfl
  obtain ⟨d, y, hd, hallows, hsize, hfree, hvariable, rfl, hdeclares, hresolves⟩ :=
    hwrites.resolves h huse fun hcontra => absurd hcontra hcallee
  have hresolve := hresolves i hi
  obtain rfl := name_of_lookup hd
  have hbracket := hwrites.bracket h huse hslot hd hsize hfree hi
  have hbound : y.bound ≠ none ↔ d.size ≠ none := by
    obtain ⟨-, -, -, -, -, -, rfl⟩ := hdeclares
    exact Option.map_eq_none_iff.not
  have hconst : y.isConst = decide (d.kind = .constant) := by
    obtain ⟨-, -, -, -, -, -, rfl⟩ := hdeclares
    rfl
  refine ⟨slot, use, s, d, y, huse, hwrites, rfl, hd, hdeclares, hresolve,
    hbracket.trans hbound.symm, ?_, ?_, ?_, ?_⟩
  · have hprocedure : d.kind ≠ .procedure := by
      cases use with
      | callee => exact absurd rfl hcallee
      | target => exact fun hkind => by simp [Use.Allows, hkind] at hallows
      | operand => exact hallows
    obtain ⟨-, -, -, -, -, -, rfl⟩ := hdeclares
    simpa [declaredSymbol] using hprocedure
  · rintro rfl
    have hkind : d.kind = .variable := hallows
    simp [hconst, hkind]
  · intro hy
    simp [hconst, hvariable (hbound.mp hy)]
  · intro n hn
    obtain ⟨-, -, -, -, -, -, rfl⟩ := hdeclares
    cases slot with
    | printedText =>
      obtain ⟨m, hm⟩ := Option.ne_none_iff_exists'.mp hsize
      simp_all [Slot.fragmentFor]
    | _ => cases hn

/-- A program in which a variable of a procedure hides a constant. -/
theorem name_resolves_hidden :
    let source : Source :=
      ⟨"hidden.pl0", "const n = 1; var a size 2; procedure p; var n; n := 2; a[n] := n."⟩
    ((compile source).deliver .unlimited).failure? = none ∧
      ∃ p : Tree.Program, source.Reads p.tokens ∧ ∃ before after,
        .preamble :: (p.fragments ++ [.trailer]) = before ++ .name "n" :: after ∧
          ∃ s d y, s.scope.lookup "n" = some d ∧ source.Declares s d y ∧
            C.resolve (C.tokens (compile source).text) (cTokens before).length = some y ∧
              y.isFunction = false := by
  let source : Source :=
    ⟨"hidden.pl0", "const n = 1; var a size 2; procedure p; var n; n := 2; a[n] := n."⟩
  let single (f : Tree.Factor) : Tree.Expression := .mk none (.mk f .done) .done
  let p : Tree.Program := ⟨.mk [⟨"n", 1, "1"⟩] [⟨"a", some ⟨2, "2"⟩⟩]
    (.next "p" (.mk [] [⟨"n", none⟩] .done (.assign "n" (single (.number ⟨2, "2"⟩)))) .done)
    (.assignElement "a" (single (.name "n")) (single (.name "n")))⟩
  let before : List Fragment := [.preamble, .constantHead "n", .constantValue 1, .variableHead "a",
    .arrayBound 2, .variableEnd, .variablesEnd, .procedureHead "p", .variableHead "n", .variableEnd,
    .variablesEnd]
  have haccepted : ((compile source).deliver .unlimited).failure? = none := by decide +kernel
  have hp : source.Reads p.tokens := Source.reads_iff.mpr (by decide +kernel)
  obtain ⟨-, -, s, d, y, -, -, -, hd, hdeclares, hresolve, -, hfunction, -⟩ :=
    name_resolves source haccepted p hp before (.name "n") _ "n" 0 rfl rfl nofun rfl
  exact ⟨haccepted, p, hp, before, _, rfl, s, d, y, hd, hdeclares, hresolve, hfunction⟩

end PlZero
