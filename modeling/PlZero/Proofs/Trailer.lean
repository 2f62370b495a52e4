import Mathlib.Data.List.Infix
import PlZero.Proofs.Unbroken
import PlZero.Proofs.Written

/-!
# The trailer

The trailer is the comment behind the output of a program. It is written when a run comes to its
end, and nothing but that makes the output end with it: what is delivered ends with the trailer just
if nothing has failed, and then the trailer is found at the end only (`trailer_marks_success`). A
program cannot imitate it, although a text that it prints may hold the words of the trailer, since
no fragment between the ends of the frame has a line that ends as the trailer does
(`Fragment.IsInner.clear`).

Whether an occurrence of a pattern may begin in some part of a list depends on this part alone
(`Clear`). So the fragments are looked at one by one, whatever stands behind them.
-/

namespace PlZero

open Goal

/-! ### Where an occurrence may begin -/

section

variable {α : Type} {p xs ys : List α}

/-- No occurrence of `p` begins in `xs`, whatever follows: what is left of `xs` from a place on
neither begins with `p` nor is a beginning of it. -/
def Clear (p xs : List α) : Prop := ∀ s, s <:+ xs → s ≠ [] → ¬ p <+: s ∧ ¬ s <+: p

instance [DecidableEq α] : Decidable (Clear p xs) :=
  decidable_of_iff (∀ s ∈ xs.tails, s ≠ [] → ¬ p <+: s ∧ ¬ s <+: p) (by simp [Clear])

theorem clear_nil : Clear p [] := fun _ hs hne => absurd (List.suffix_nil.mp hs) hne

/-- An occurrence begins behind what it cannot begin in. -/
theorem Clear.exists_eq (h : Clear p xs) {front rest : List α}
    (heq : xs ++ ys = front ++ p ++ rest) :
    ∃ front', front = xs ++ front' ∧ ys = front' ++ p ++ rest := by
  rw [List.append_assoc] at heq
  rcases List.append_eq_append_iff.mp heq with ⟨front', hfront, hys⟩ | ⟨s, hxs, hp⟩
  · exact ⟨front', hfront, by rw [hys, List.append_assoc]⟩
  · by_cases hs : s = []
    · refine ⟨[], by rw [hxs, hs, List.append_nil, List.append_nil], ?_⟩
      rw [hs, List.nil_append] at hp
      rw [List.nil_append, hp]
    · obtain ⟨hno, hno'⟩ := h s ⟨front, hxs.symm⟩ hs
      have hcomparable := List.prefix_or_prefix_of_prefix (List.prefix_append p rest)
        (hp ▸ List.prefix_append s ys)
      exact (hcomparable.elim hno hno').elim

theorem Clear.append (hx : Clear p xs) (hy : Clear p ys) : Clear p (xs ++ ys) := by
  rintro s ⟨front, hs⟩ hne
  rcases List.append_eq_append_iff.mp hs with ⟨s', hxs, hs'⟩ | ⟨as, -, hys⟩
  · -- The place is in the first part, so it is the rest of this part that has to agree.
    by_cases hnil : s' = []
    · rw [hnil, List.nil_append] at hs'
      exact hy s (hs' ▸ List.suffix_rfl) hne
    · obtain ⟨hno, hno'⟩ := hx s' ⟨front, hxs.symm⟩ hnil
      have hbegins : s' <+: s := hs' ▸ List.prefix_append s' ys
      refine ⟨fun hp => ?_, fun hp => hno' (hbegins.trans hp)⟩
      exact (List.prefix_or_prefix_of_prefix hp hbegins).elim hno hno'
  · exact hy s ⟨as, hys.symm⟩ hne

/-- No occurrence begins where its first element is missing. -/
theorem clear_of_not_mem {a : α} (ha : a ∉ xs) : Clear (a :: p) xs := by
  rintro (- | ⟨b, s⟩) hs hne
  · exact absurd rfl hne
  · have hb : b ≠ a := fun hba => ha (hba ▸ hs.subset List.mem_cons_self)
    exact ⟨fun hp => hb (List.cons_prefix_cons.mp hp).1.symm,
      fun hp => hb (List.cons_prefix_cons.mp hp).1⟩

/-- No occurrence begins where one of its elements is missing and the last one belongs to none. -/
theorem clear_of_getLast {a b : α} (hp : a ∈ p) (ha : a ∉ xs) (hlast : xs.getLast? = some b)
    (hb : b ∉ p) : Clear p xs := by
  intro s hs hne
  refine ⟨fun hbegins => ha (hs.subset (hbegins.subset hp)), fun hbegins => hb ?_⟩
  have hsame : s.getLast? = some b := by
    obtain ⟨front, rfl⟩ := hs
    rwa [List.getLast?_append_of_ne_nil _ hne] at hlast
  exact hbegins.subset (List.mem_of_getLast? hsame)

end

/-! ### The end of the trailer -/

/-- The bytes with which the trailer ends: a space, the end of a comment and a line feed. -/
def trailerEnd : List UInt8 := [32, 42, 47, 10]

/-- The bytes of the trailer. -/
def trailerBytes : List UInt8 := Text.utf8 Fragment.trailer.text

theorem trailerBytes_eq : ∃ words, trailerBytes = words ++ trailerEnd := by
  exact ⟨trailerBytes.take 22, by decide +kernel⟩

/-- The only line feed of the trailer is its last byte. -/
theorem trailerBytes_eq_concat : ∃ line, trailerBytes = line ++ [10] ∧ 10 ∉ line := by
  exact ⟨trailerBytes.take 25, by decide +kernel, by decide +kernel⟩

variable {text x : String}

/-- A text without a space. -/
theorem clear_of_no_space (h : ' ' ∉ text.toList) : Clear trailerEnd (Text.utf8 text) :=
  clear_of_not_mem fun hmem => h (Text.mem_toList_of_mem_utf8 hmem (by decide))

theorem clear_append {p : List UInt8} {s t : String} (hs : Clear p (Text.utf8 s))
    (ht : Clear p (Text.utf8 t)) : Clear p (Text.utf8 (s ++ t)) := by
  rw [Text.utf8_append]
  exact hs.append ht

/-- A text that is given by its characters, as a literal is. -/
theorem clear_ofList {p : List UInt8} {cs : List Char}
    (h : Clear p (cs.flatMap String.utf8EncodeChar)) : Clear p (Text.utf8 (String.ofList cs)) := by
  rwa [Text.utf8, String.toList_ofList]

/-- A text without a line feed, in front of a byte that is none of these. -/
theorem clear_of_unbroken {last : String} {b : UInt8} (h : Unbroken text) (hlast : Unbroken last)
    (hb : (Text.utf8 last).getLast? = some b ∧ b ∉ trailerEnd) :
    Clear trailerEnd (Text.utf8 (text ++ last)) := by
  refine clear_of_getLast (a := 10) (b := b) (by decide) (fun hmem => ?_) ?_ hb.2
  · exact (h.append hlast) (Text.mem_toList_of_mem_utf8 hmem (by decide))
  · rw [Text.utf8_append, List.getLast?_append, hb.1]
    rfl

/-- A word has none of these bytes. -/
theorem IsWord.not_mem_trailerEnd (h : IsWord x) : ∀ b ∈ Text.utf8 x, b ∉ trailerEnd := by
  have hnone : ∀ b ∈ trailerEnd, b < 128 ∧ isWordPart (Char.ofUInt8 b) = false := by
    decide +kernel
  intro b hmem hb
  obtain ⟨hlt, hnot⟩ := hnone b hb
  have hpart := h.forall_isWordPart _ (Text.mem_toList_of_mem_utf8 hmem hlt)
  rw [hnot] at hpart
  cases hpart

theorem IsWord.exists_getLast (h : IsWord x) :
    ∃ b, (Text.utf8 x).getLast? = some b ∧ b ∉ trailerEnd := by
  have hne : Text.utf8 x ≠ [] := by
    obtain ⟨c, cs, hx, -⟩ := h
    simp [Text.utf8, hx, String.utf8EncodeChar_ne_nil]
  refine ⟨(Text.utf8 x).getLast hne, List.getLast?_eq_some_getLast hne, ?_⟩
  exact h.not_mem_trailerEnd _ (List.getLast_mem hne)

theorem IsWord.no_space (h : IsWord x) : ' ' ∉ x.toList := fun hmem =>
  absurd (h.forall_isWordPart _ hmem) (by decide)

theorem no_space_decimal (n : Int) : ' ' ∉ (Text.decimal n).toList := fun hmem =>
  absurd (isDigit_or_eq_of_mem_decimal hmem) (by decide)

/-- A text without a space between two others without one. -/
theorem clear_within {head rest : String} (h : ' ' ∉ text.toList) (hhead : ' ' ∉ head.toList)
    (hrest : ' ' ∉ rest.toList) : Clear trailerEnd (Text.utf8 (head ++ text ++ rest)) := by
  refine clear_of_no_space ?_
  simp only [String.toList_append, List.mem_append, not_or]
  exact ⟨⟨hhead, h⟩, hrest⟩

theorem newline_not_mem_escapeByte (b : UInt8) : '\n' ∉ Text.escapeByte b := by
  have hall : ∀ n < 256, '\n' ∉ Text.escapeByte (UInt8.ofNat n) := by decide +kernel
  have hb := hall b.toNat b.toNat_lt
  rwa [UInt8.ofNat_toNat] at hb

/-- A string literal is written on one line. -/
theorem unbroken_cString (content : String) : Unbroken (Text.cString content) := by
  simp [Unbroken, Text.cString, newline_not_mem_escapeByte]

/-- The operand of a statement that writes a number stands on the line of the statement. -/
theorem Operand.WellFormed.unbroken {o : Operand} (h : o.WellFormed) : Unbroken o.text := by
  cases o with
  | name x => exact IsWord.unbroken h
  | number n => exact unbroken_decimal n

/-- **No fragment between the ends of the frame has a line that ends as the trailer does**, nor does
it begin one. -/
theorem Fragment.IsInner.clear {f : Fragment} (h : f.IsInner) :
    Clear trailerEnd (Text.utf8 f.text) := by
  obtain ⟨hwell, hpreamble, htrailer⟩ := h
  cases f with
  | preamble => exact absurd rfl hpreamble
  | trailer => exact absurd rfl htrailer
  | mark m => cases m <;> decide +kernel
  | bodyEnd b => cases b <;> decide +kernel
  -- These have no space.
  | procedureHead x => exact clear_within (IsWord.no_space hwell) (by decide) (by decide)
  | arrayBound n => exact clear_within (no_space_decimal n) (by decide) (by decide)
  | name x => exact clear_of_no_space (IsWord.no_space hwell)
  | number n => exact clear_of_no_space (no_space_decimal n)
  | constantValue n =>
    exact clear_append (clear_of_no_space (no_space_decimal n)) (clear_ofList (by decide +kernel))
  | call x =>
    exact clear_append (clear_of_no_space (IsWord.no_space hwell))
      (clear_ofList (by decide +kernel))
  -- These are lines that do not end as the trailer does.
  | constantHead x =>
    have hhead : Unbroken ("const long " ++ x) := .append (by decide) (IsWord.unbroken hwell)
    exact clear_of_unbroken (b := 61) hhead (by decide) (by decide)
  | variableHead x =>
    have hx : IsWord x := hwell
    obtain ⟨b, hb⟩ := hx.exists_getLast
    exact clear_of_unbroken (by decide) hx.unbroken hb
  | print form o =>
    have hhead {head : String} (h : Unbroken head) : Unbroken (head ++ o.text) :=
      h.append (Operand.WellFormed.unbroken hwell)
    cases form <;>
      exact clear_of_unbroken (b := 59) (hhead (by decide)) (by decide) (by decide)
  | printText content =>
    have hhead : Unbroken ("(void) fputs(" ++ Text.cString content) :=
      .append (by decide) (unbroken_cString content)
    exact clear_of_unbroken (b := 59) hhead (by decide) (by decide +kernel)
  -- And these are put together from such parts.
  | read form x =>
    have hx : Clear trailerEnd (Text.utf8 x) := clear_of_no_space (IsWord.no_space hwell)
    cases form with
    | character => exact clear_append hx (clear_ofList (by decide +kernel))
    | decimal =>
      have hline : Clear trailerEnd (Text.utf8 (
          "if(fgets(__stdin, sizeof(__stdin), stdin) == NULL)__stdin[0] = '\\0';\n" ++
          "if(__stdin[0] != '\\0' && __stdin[strlen(__stdin) - 1] == '\\n')" ++
          "__stdin[strlen(__stdin) - 1] = '\\0';\n")) :=
        clear_append (clear_append (clear_ofList (by decide +kernel))
          (clear_ofList (by decide +kernel))) (clear_ofList (by decide +kernel))
      exact clear_append (clear_append hline hx) (clear_ofList (by decide +kernel))
  | printArray x n =>
    have hx : IsWord x := hwell
    have hclear : Clear trailerEnd (Text.utf8 x) := clear_of_no_space hx.no_space
    have hsize : Clear trailerEnd (Text.utf8 (Text.decimal n)) :=
      clear_of_no_space (no_space_decimal n)
    have hloop : Clear trailerEnd (Text.utf8 ("__writestridx = 0;\n" ++ "while(__writestridx<" ++
        Text.decimal n ++ "&&" ++ x ++ "[__writestridx]!='\\0')\n")) :=
      clear_append (clear_append (clear_append (clear_append
        (clear_append (clear_ofList (by decide +kernel)) (clear_ofList (by decide +kernel))) hsize)
        (clear_ofList (by decide +kernel))) hclear) (clear_ofList (by decide +kernel))
    have hput : Unbroken ("(void) putchar((unsigned char) " ++ x) := .append (by decide) hx.unbroken
    have hline : Clear trailerEnd (Text.utf8 ("(void) putchar((unsigned char) " ++ x ++
        "[__writestridx++]);")) :=
      clear_of_unbroken (b := 59) hput (by decide) (by decide +kernel)
    have hall := clear_append hloop hline
    rw [← String.append_assoc, ← String.append_assoc] at hall
    exact hall
  | _ => decide +kernel

/-! ### The frame around the program -/

variable {source : Source} {g : Goal} {gs goals more : List Goal} {s s' : State} {f : Fragment}
  {fs : List Fragment}

/-- The goal has no end of the frame of its own. -/
def Goal.IsInner (g : Goal) : Prop := g.own? ≠ some .preamble ∧ g.own? ≠ some .trailer

instance (g : Goal) : Decidable g.IsInner := inferInstanceAs (Decidable (_ ∧ _))

theorem isInner_of_expansion {n : Nonterminal} {t : Token} (h : n.expansion t = .ok more) :
    ∀ g ∈ more, g.IsInner := by
  cases n with
  | block b =>
    cases h
    cases b <;> decide
  | term =>
    cases h
    decide
  | statement =>
    cases h
    cases t with
    | name x => simp [Nonterminal.statementGoals, Goal.IsInner, Goal.own?]
    | keyword k => cases k <;> decide
    | _ => simp [Nonterminal.statementGoals]
  | factor | index =>
    simp only [Nonterminal.expansion] at h
    split at h <;> cases h <;> simp [Goal.IsInner, Goal.own?]
  | _ =>
    simp only [Nonterminal.expansion] at h
    split at h <;> cases h <;> decide

/-- Such a goal writes no end of the frame. -/
theorem Visited.isInner_of_emits (h : Visited source.items (g :: gs) s) (hg : g.IsInner)
    (hf : g.Emits s f) : f.IsInner := by
  have hown (hsome : g.own? = some f) : f.IsInner :=
    ⟨h.wellFormed_of_emits hf, fun heq => hg.1 (heq ▸ hsome), fun heq => hg.2 (heq ▸ hsome)⟩
  rcases hf with rfl | ⟨slot, scope, rfl, hfill⟩
  · exact hown rfl
  · by_cases hwritten : ∃ e, slot = .written e f
    · obtain ⟨e, rfl⟩ := hwritten
      exact hown rfl
    · exact Slot.isInner_of_fill (fun e he => hwritten ⟨e, he⟩) h.wellFormed_lookahead hfill

/-- How much of the frame has been written where a run comes by. -/
inductive Framing : List Goal → List Fragment → Prop
  | blank : Framing programGoals []
  | opened {goals : List Goal} {fs : List Fragment} (goals_inner : ∀ g ∈ goals, g.IsInner)
    (inner : ∀ f ∈ fs, f.IsInner) : Framing (goals ++ [.write .trailer]) (.preamble :: fs)
  | closed {fs : List Fragment} (inner : ∀ f ∈ fs, f.IsInner) :
    Framing [] (.preamble :: (fs ++ [.trailer]))

/-- Behind the first end of the frame, a goal in front of the other one writes nothing but inner
fragments, even if it fails. -/
theorem Visited.inner_of_step (h : Visited source.items (g :: gs) s) (hg : g.IsInner)
    (hfragments : s.fragments = .preamble :: fs) (inner : ∀ f ∈ fs, f.IsInner) :
    ∃ fs', (step g s).state.fragments = .preamble :: fs' ∧ ∀ f ∈ fs', f.IsInner := by
  obtain ⟨f, hwritten, hf⟩ := written_of_step g s
  refine ⟨fs ++ f.toList, by simp [hwritten, hfragments], ?_⟩
  refine List.forall_mem_append.mpr ⟨inner, fun x hx => ?_⟩
  exact h.isInner_of_emits hg (hf x (Option.mem_toList.mp hx))

/-- **Every step keeps to the frame.** -/
theorem Framing.step (h : Framing (g :: gs) s.fragments)
    (hvisited : Visited source.items (g :: gs) s) (hstep : step g s = .ok more s') :
    Framing (more ++ gs) s'.fragments := by
  generalize hgoals : g :: gs = goals at h
  generalize hfragments : s.fragments = written at h
  cases h with
  | blank =>
    obtain ⟨rfl, rfl⟩ := List.cons.inj hgoals
    rw [step_write] at hstep
    cases hstep
    rw [State.fragments_write, hfragments]
    have hinner : ∀ g ∈ programGoals.tail.dropLast, g.IsInner := by decide
    exact .opened hinner (List.forall_mem_nil _)
  | @opened goals fs goals_inner inner =>
    cases goals with
    | nil =>
      obtain ⟨rfl, rfl⟩ := List.cons.inj hgoals
      rw [step_write] at hstep
      cases hstep
      rw [State.fragments_write, hfragments]
      exact .closed inner
    | cons first rest =>
      obtain ⟨rfl, rfl⟩ := List.cons.inj hgoals
      obtain ⟨hg, hrest⟩ := List.forall_mem_cons.mp goals_inner
      obtain ⟨fs', hfs', inner'⟩ := hvisited.inner_of_step hg hfragments inner
      have hstate : s'.fragments = .preamble :: fs' := by rwa [hstep] at hfs'
      have hmore : ∀ g ∈ more, g.IsInner := by
        cases g with
        | expand n => exact isInner_of_expansion (step_expand hstep).1
        | fill slot => exact (step_fill hstep).1 ▸ List.forall_mem_nil _
        | perform a => exact (step_perform hstep).1 ▸ List.forall_mem_nil _
      rw [hstate, List.append_eq, ← List.append_assoc]
      exact .opened (List.forall_mem_append.mpr ⟨hmore, hrest⟩) inner'
  | closed inner => cases hgoals

theorem Visited.framing (h : Visited source.items goals s) : Framing goals s.fragments := by
  induction h with
  | start => exact .blank
  | next visited step_eq ih => exact ih.step visited step_eq

/-- **A run that fails writes no trailer.** -/
theorem fragments_of_failure {e : Located Failure} (h : compileItems source.items = .error e s) :
    ∃ fs, s.fragments = .preamble :: fs ∧ ∀ f ∈ fs, f.IsInner := by
  obtain ⟨g, gs, t, hvisited, hstep⟩ := exists_step_of_failure h
  have hframing := hvisited.framing
  generalize hgoals : g :: gs = goals at hframing
  generalize hfragments : t.fragments = written at hframing
  cases hframing with
  | blank =>
    obtain ⟨rfl, rfl⟩ := List.cons.inj hgoals
    cases hstep
  | @opened goals fs goals_inner inner =>
    cases goals with
    | nil =>
      obtain ⟨rfl, rfl⟩ := List.cons.inj hgoals
      cases hstep
    | cons first rest =>
      obtain ⟨rfl, rfl⟩ := List.cons.inj hgoals
      have hwritten := hvisited.inner_of_step (goals_inner g List.mem_cons_self) hfragments inner
      rwa [hstep] at hwritten
  | closed inner => cases hgoals

/-- A run that comes to its end writes the trailer last. -/
theorem fragments_of_finished (h : compileItems source.items = .ok () s) :
    ∃ fs, s.fragments = .preamble :: (fs ++ [.trailer]) ∧ ∀ f ∈ fs, f.IsInner := by
  have hframing := (visited_of_finished h).framing
  generalize hgoals : ([] : List Goal) = goals at hframing
  generalize hfragments : s.fragments = written at hframing
  cases hframing with
  | blank => cases hgoals
  | opened => simp at hgoals
  | @closed fs inner => exact ⟨fs, rfl, inner⟩

/-! ### Bytes -/

theorem text_compile (source : Source) :
    (compile source).text = codeOf (compileItems source.items).state.fragments := by
  rw [compile]
  cases compileItems source.items <;>
    simp [Outcome.account, Outcome.state, Account.text, State.fragments, codeOf, Function.comp_def]

theorem clear_codeOf (h : ∀ f ∈ fs, f.IsInner) : Clear trailerEnd (Text.utf8 (codeOf fs)) := by
  induction fs with
  | nil => exact clear_nil
  | cons f fs ih =>
    obtain ⟨hf, hfs⟩ := List.forall_mem_cons.mp h
    rw [codeOf_cons]
    exact clear_append hf.clear (ih hfs)

theorem utf8_codeOf_trailer (fs : List Fragment) :
    Text.utf8 (codeOf (fs ++ [.trailer])) = Text.utf8 (codeOf fs) ++ trailerBytes := by
  simp [trailerBytes]

/-- The trailer does not begin in the preamble. -/
theorem clear_preamble : Clear trailerBytes (Text.utf8 Fragment.preamble.text) := by
  change Clear trailerBytes (Text.utf8 Fragment.preambleText)
  unfold Fragment.preambleText
  iterate 25 refine clear_append ?_ (clear_ofList (by decide +kernel))
  exact clear_ofList (by decide +kernel)

variable {front rest : List UInt8}

/-- The end of the trailer begins behind the preamble and inner fragments. -/
theorem exists_trailerEnd (h : ∀ f ∈ fs, f.IsInner) {bytes : List UInt8}
    (heq : Text.utf8 (codeOf (.preamble :: fs)) ++ bytes = front ++ trailerBytes ++ rest) :
    ∃ words, bytes = words ++ trailerEnd ++ rest := by
  rw [codeOf_cons, Text.utf8_append, List.append_assoc] at heq
  obtain ⟨front', -, hinner⟩ := clear_preamble.exists_eq heq
  obtain ⟨words, hwords⟩ := trailerBytes_eq
  rw [hwords, ← List.append_assoc] at hinner
  obtain ⟨words', -, hbytes⟩ := (clear_codeOf h).exists_eq hinner
  exact ⟨words', hbytes⟩

/-- **Where the trailer stands in the output**: at its end, and in the output of a run that comes to
its end. -/
theorem finished_of_trailer
    (h : Text.utf8 (compile source).text = front ++ trailerBytes ++ rest) :
    rest = [] ∧ ∃ s, compileItems source.items = .ok () s := by
  rw [text_compile] at h
  cases hrun : compileItems source.items with
  | error e s =>
    rw [hrun] at h
    obtain ⟨fs, hfragments, inner⟩ := fragments_of_failure hrun
    rw [Outcome.state, hfragments, ← List.append_nil (Text.utf8 _)] at h
    obtain ⟨words, hnil⟩ := exists_trailerEnd inner h
    simp [trailerEnd] at hnil
  | ok u s =>
    rw [hrun] at h
    obtain ⟨fs, hfragments, inner⟩ := fragments_of_finished hrun
    rw [Outcome.state, hfragments, ← List.cons_append, utf8_codeOf_trailer] at h
    obtain ⟨words, htrailer⟩ := exists_trailerEnd inner h
    obtain ⟨line, hline, hfeed⟩ := trailerBytes_eq_concat
    -- Either way, the trailer ends with its only line feed.
    have hfeeds : (words ++ [32, 42, 47]) ++ 10 :: rest = line ++ [10] := by
      rw [← hline, htrailer]
      simp [trailerEnd]
    exact ⟨(eq_nil_of_append_cons hfeeds hfeed).2.2, s, rfl⟩

/-- A run that comes to its end leaves the trailer at the end of its output. -/
theorem trailer_of_finished (h : compileItems source.items = .ok () s) :
    trailerBytes <:+ Text.utf8 (compile source).text := by
  obtain ⟨fs, hfragments, -⟩ := fragments_of_finished h
  rw [text_compile, h, Outcome.state, hfragments, ← List.cons_append, utf8_codeOf_trailer]
  exact List.suffix_append _ _

/-! ### Deliveries -/

/-- To a destination that does not refuse to flush, everything is delivered, and the run ends as it
does by itself; or the first bytes are delivered, and the run fails because of the destination. -/
theorem Account.deliver_cases (a : Account) (room? : Option Nat) (refusal : String) :
    let d := a.deliver ⟨room?, refusal, none⟩
    (d.bytes.toList = Text.utf8 a.text ∧ d.failure? = a.failure?) ∨
      (d.failure? ≠ none ∧ ∃ more, more ≠ [] ∧ Text.utf8 a.text = d.bytes.toList ++ more) := by
  intro d
  obtain ⟨hfailure, hbytes⟩ := deliver_unlimited a
  have hlist : (a.deliver .unlimited).bytes.toList = Text.utf8 a.text := by rw [hbytes]
  cases room? with
  | none =>
    have hsame : d = a.deliver .unlimited := rfl
    exact .inl ⟨by rw [hsame, hlist], by rw [hsame, hfailure]⟩
  | some limit =>
    have hfits : a.FitsInto ⟨some limit, refusal, none⟩ limit := a.fitsInto rfl
    by_cases hle : (a.deliver .unlimited).bytes.size ≤ limit
    · left
      cases hending : (a.deliver .unlimited).failure? with
      | none =>
        obtain ⟨line, hd⟩ := hfits.finished hending hle
        refine ⟨(congrArg (·.bytes.toList) hd).trans hlist, (congrArg (·.failure?) hd).trans ?_⟩
        rw [← hfailure, hending]
        rfl
      | some f =>
        have hd := hfits.failed f hending hle
        refine ⟨(congrArg (·.bytes.toList) hd).trans hlist, (congrArg (·.failure?) hd).trans ?_⟩
        rw [← hfailure, hending]
    · right
      have hlt := Nat.lt_of_not_le hle
      obtain ⟨line, hd⟩ := hfits.cut hlt
      refine ⟨ne_of_eq_of_ne (congrArg (·.failure?) hd) nofun, (Text.utf8 a.text).drop limit, ?_,
        ?_⟩
      · rw [hbytes, List.size_toArray] at hlt
        exact List.ne_nil_of_length_pos (by rw [List.length_drop]; omega)
      · have hfirst : d.bytes.toList = (Text.utf8 a.text).take limit := by
          have hbytes' := congrArg (·.bytes.toList) hd
          simpa [hbytes] using hbytes'
        rw [hfirst, List.take_append_drop]

/-- What has been delivered ends with the trailer just if nothing has failed, and where the trailer
stands, nothing follows and nothing has failed. -/
theorem trailer_of_delivery (source : Source) (room? : Option Nat) (refusal : String) :
    let d := (compile source).deliver ⟨room?, refusal, none⟩
    let trailer := Text.utf8 Fragment.trailer.text
    (d.failure? = none ↔ trailer <:+ d.bytes.toList) ∧
      ∀ front rest, d.bytes.toList = front ++ trailer ++ rest → rest = [] ∧ d.failure? = none := by
  intro d trailer
  have hoccurrence (front rest : List UInt8) (h : d.bytes.toList = front ++ trailer ++ rest) :
      rest = [] ∧ d.failure? = none := by
    rcases (compile source).deliver_cases room? refusal with
      ⟨hbytes, hfailure⟩ | ⟨-, more, hmore, hbytes⟩
    · obtain ⟨hrest, s, hs⟩ := finished_of_trailer (hbytes.symm.trans h)
      refine ⟨hrest, hfailure.trans ?_⟩
      rw [compile, hs]
      rfl
    · have hall := hbytes.trans (congrArg (· ++ more) h)
      rw [List.append_assoc] at hall
      obtain ⟨hnil, -⟩ := finished_of_trailer hall
      exact absurd (List.append_eq_nil_iff.mp hnil).2 hmore
  refine ⟨⟨fun hnone => ?_, ?_⟩, hoccurrence⟩
  · rcases (compile source).deliver_cases room? refusal with ⟨hbytes, hfailure⟩ | ⟨hsome, -⟩
    · have haccepted : source.Accepted := (deliver_unlimited _).1.trans (hfailure.symm.trans hnone)
      obtain ⟨s, hs⟩ := Source.accepted_iff_finished.mp haccepted
      exact hbytes ▸ trailer_of_finished hs
    · exact absurd hnone hsome
  · rintro ⟨front, hfront⟩
    exact (hoccurrence front [] (by rw [← hfront, List.append_nil])).2

/-- **The trailer marks success.** To a destination that may run out of room at any byte, but does
not refuse to flush, compiling a program delivers bytes that end with the trailer just if nothing
fails. In what has been delivered the trailer stands nowhere else, and where something fails it
stands nowhere at all, whatever the program holds. The same is found in a sink with limited room
that the program has been compiled into. -/
theorem trailer_marks_success (source : Source) (room? : Option Nat) (refusal : String) :
    let d := (compile source).deliver ⟨room?, refusal, none⟩
    let trailer := Text.utf8 Fragment.trailer.text
    (d.failure? = none ↔ trailer <:+ d.bytes.toList) ∧
      (∀ front rest, d.bytes.toList = front ++ trailer ++ rest → rest = [] ∧ d.failure? = none) ∧
      ∀ (whenFull : WhenFull) (s : LimitedSink),
        (compileInto source (LimitedSink.empty room? whenFull none) = .ok () s →
          trailer <:+ s.taken.toList ∧
            ∀ front rest, s.taken.toList = front ++ trailer ++ rest → rest = []) ∧
        ∀ f, compileInto source (LimitedSink.empty room? whenFull none) = .error f s →
          ∀ front rest, s.taken.toList ≠ front ++ trailer ++ rest := by
  intro d trailer
  obtain ⟨hmarks, hoccurrence⟩ := trailer_of_delivery source room? refusal
  refine ⟨hmarks, hoccurrence, fun whenFull s => ?_⟩
  have hresult := (writtenBy_compileInto source).eq_result room? whenFull none
  obtain ⟨hmarks, hoccurrence⟩ := trailer_of_delivery source room? whenFull.reason
  constructor
  · intro hjob
    obtain ⟨hnone, rfl⟩ := LimitedSink.result_eq_ok (hresult.symm.trans hjob)
    exact ⟨hmarks.mp hnone, fun front rest h => (hoccurrence front rest h).1⟩
  · intro f hjob front rest h
    obtain ⟨hsome, rfl⟩ := LimitedSink.result_eq_error (hresult.symm.trans hjob)
    cases hsome.symm.trans (hoccurrence front rest h).2

end PlZero
