import PlZero.Proofs.C.Code
import PlZero.Proofs.C.Templates
import PlZero.Proofs.Uses

/-!
# Brackets behind names

In the output a bracket follows a name just if the name has been declared with a size. Where the
next goal tells whether there is an index, this goal agrees with the declaration, and nothing else
that may follow there begins with a bracket (`bracket_behind`). In a template, the slot has agreed
with the declaration already (`bracket_in`).
-/

namespace PlZero

open Goal

variable {g : Goal} {gs goals more : List Goal} {s s' t : State}
  {slot : Slot} {x : String}

/-! ### What may follow -/

theorem Fragment.head_tokens_ne {f : Fragment} (h : f.opens = false) :
    f.tokens.head? ≠ some (.mark "[") := by
  cases f with
  | arrayBound n => cases h
  | mark m =>
    cases m with
    | leftBracket => cases h
    | _ => decide
  | bodyEnd b => cases b <;> decide
  | print form | read form => cases form <;> simp [Fragment.tokens]
  | _ => simp [Fragment.tokens]

/-- A slot that may not open a bracket does not write one. -/
theorem opens_of_fill {depth : Nat} {scope scope' : Scope} {u : Token} {f : Fragment}
    (hslot : (fill slot).opens = false) (h : slot.fill depth scope u = .ok (scope', some f)) :
    f.opens = false := by
  cases Slot.fills_of_fill h with
  | written e f => exact hslot
  | @declared kind => cases kind <;> rfl
  | arrayBound => cases hslot
  | relation r => cases r <;> rfl
  | used => cases slot <;> rfl
  | constantValue | operand | printed | printedText => rfl

/-- A slot for a name that may have an index, or for that of a variable, writes something. -/
theorem tokens_of_fill_ne_nil {depth : Nat} {scope scope' : Scope} {u : Token}
    {f : Option Fragment}
    (hslot : slot = .target ∨ slot = .operand ∨ slot = .declared .variable)
    (h : slot.fill depth scope u = .ok (scope', f)) : cTokens f.toList ≠ [] := by
  cases Slot.fills_of_fill h with
  | skipped | written | constantValue | arrayBound | relation | printed | printedText =>
    simp at hslot
  | @declared kind => cases kind <;> exact nofun
  | operand => exact nofun
  | used => rcases hslot with rfl | rfl | rfl <;> exact nofun

/-- A goal that may not open a bracket does not write one, and neither does the next goal if nothing
is written before it. -/
theorem head_of_step (hg : g.opens = false) (h : step g s = .ok more s')
    (hchain : (g :: gs).IsChain fun g g' => g.precedes g') :
    ∃ us, cTokens s'.fragments = cTokens s.fragments ++ us ∧ us.head? ≠ some (.mark "[") ∧
      (us = [] → ∀ g' ∈ (more ++ gs).head?, g'.opens = false) := by
  have hnext := (List.isChain_cons.mp hchain).1
  cases g with
  | expand n =>
    obtain ⟨hmore, rfl⟩ := step_expand h
    refine ⟨[], by simp, nofun, fun _ g' hg' => ?_⟩
    cases more with
    | nil =>
      rcases Goal.opens_of_precedes (hnext g' hg') hg with h | h | h | h
      · exact h
      all_goals cases h
    | cons first more =>
      cases hg'
      exact opens_of_expansion hmore hg
  | fill slot =>
    obtain ⟨rfl, f, hfill, -, hfragments⟩ := step_fill h
    refine ⟨cTokens f.toList, by simp [hfragments], ?_, fun hnil g' hg' => ?_⟩
    · cases f with
      | none => exact nofun
      | some f => simpa using Fragment.head_tokens_ne (opens_of_fill hg hfill)
    · rcases Goal.opens_of_precedes (hnext g' hg') hg with h | h
      · exact h
      · exact absurd hnil (tokens_of_fill_ne_nil (by simpa using h) hfill)
  | perform a =>
    obtain ⟨rfl, hperform⟩ := step_perform h
    have hfollowing : ∀ g' ∈ ([] ++ gs).head?, g'.opens = false := by
      intro g' hg'
      rcases Goal.opens_of_precedes (hnext g' hg') hg with h | h | h | h
      · exact h
      all_goals cases h
    cases a with
    | write f =>
      rw [perform_write] at hperform
      cases hperform
      exact ⟨f.tokens, by simp, Fragment.head_tokens_ne hg, fun _ => hfollowing⟩
    | _ =>
      have hfragments := fragments_of_perform hperform nofun
      exact ⟨[], by simp [hfragments], nofun, fun _ => hfollowing⟩

/-- **What follows in a run does not begin with a bracket**, unless the next goal may open one. -/
theorem head_of_run {u : Unit} (h : run goals s = .ok u t)
    (hchain : goals.IsChain fun g g' => g.precedes g')
    (hhead : ∀ g ∈ goals.head?, g.opens = false) :
    ∃ ts, cTokens t.fragments = cTokens s.fragments ++ ts ∧ ts.head? ≠ some (.mark "[") := by
  induction goals, s using run_induction with
  | nil s =>
    rw [run_nil] at h
    cases h
    exact ⟨[], by simp, nofun⟩
  | stop g gs s f s' hstep => simp [run_cons, hstep] at h
  | next g gs s more s' hstep ih =>
    rw [run_cons, hstep] at h
    obtain ⟨us, hus, hbracket, hnext⟩ := head_of_step (hhead g rfl) hstep hchain
    cases us with
    | nil =>
      obtain ⟨ts, hts, hbegin⟩ := ih h (chain_of_step hstep hchain) (hnext rfl)
      exact ⟨ts, by rw [hts, hus, List.append_nil], hbegin⟩
    | cons c us =>
      obtain ⟨fs, hfs⟩ := fragments_of_run h
      refine ⟨c :: us ++ cTokens fs, ?_, hbracket⟩
      rw [← hfs, cTokens_append, hus, List.append_assoc]

/-! ### Brackets of goals -/

theorem size_of_checkArray {d : Declaration} (hd : s.scope.lookup x = some d)
    (h : (Action.checkArray x).perform s = .ok () s') : d.size ≠ none := by
  simp only [Action.perform] at h
  split at h
  · next n hn => simp [(arraySize_eq_ok_iff hd).mp hn]
  · cases h

theorem size_of_checkPlain {d : Declaration} (hd : s.scope.lookup x = some d)
    (h : (Action.checkPlain x).perform s = .ok () s') : d.size = none := by
  simp only [Action.perform] at h
  split at h
  · next hplain => exact (checkPlain_eq_ok_iff hd).mp hplain
  · cases h

/-- **A bracket follows a name that may have an index just if the name has been declared with a
size.** -/
theorem bracket_behind {u : Unit} {d : Declaration} (hd : s.scope.lookup x = some d)
    (h : run (expand (.index x) :: gs) s = .ok u t)
    (hchain : (expand (.index x) :: gs).IsChain fun g g' => g.precedes g') :
    ∃ ts, cTokens t.fragments = cTokens s.fragments ++ ts ∧
      (ts.head? = some (.mark "[") ↔ d.size ≠ none) := by
  obtain ⟨more, s₁, hexpand, h₁⟩ := exists_step h
  have hchain₁ := chain_of_step hexpand hchain
  obtain ⟨hmore, rfl⟩ := step_expand hexpand
  simp only [Nonterminal.expansion] at hmore
  split at hmore <;> cases hmore
  · -- There is an index: the name is checked to be an array, and the bracket is written.
    obtain ⟨more, s₂, hcheck, h₂⟩ := exists_step h₁
    obtain ⟨rfl, hperform⟩ := step_perform hcheck
    have hsize := size_of_checkArray hd hperform
    obtain rfl := perform_check hperform (.inr ⟨x, .inl rfl⟩)
    obtain ⟨more, s₃, hfill, h₃⟩ := exists_step h₂
    obtain ⟨rfl, f, hf, -, hfragments⟩ := step_fill hfill
    obtain rfl := Slot.eq_of_fill_written hf
    obtain ⟨fs, hfs⟩ := fragments_of_run h₃
    refine ⟨.mark "[" :: cTokens fs, ?_, by simp [hsize]⟩
    rw [← hfs, hfragments]
    simp [Fragment.tokens, Mark.spelling]
  · -- There is none: the name is checked not to be one, and no bracket can follow.
    obtain ⟨more, s₂, hcheck, h₂⟩ := exists_step h₁
    obtain ⟨rfl, hperform⟩ := step_perform hcheck
    have hsize := size_of_checkPlain hd hperform
    obtain rfl := perform_check hperform (.inr ⟨x, .inr rfl⟩)
    obtain ⟨hhead, htail⟩ := List.isChain_cons.mp hchain₁
    obtain ⟨ts, hts, hne⟩ := head_of_run h₂ htail fun g' hg' => by
      rcases Goal.opens_of_precedes (hhead g' hg') rfl with h | h | h | h
      · exact h
      all_goals cases h
    exact ⟨ts, hts, by simp [hne, hsize]⟩

/-! ### Brackets in templates -/

/-- Behind every `x` among the tokens comes `b`. -/
def Before (x : String) (b : C.Token) (ts : List C.Token) : Prop :=
  ∀ i, ts[i]? = some (.word x) → ts[i + 1]? = some b

/-- All words among the tokens are reserved. -/
def onlyReserved (ts : List C.Token) : Bool :=
  ts.all fun
    | .word w => isReserved w
    | _ => true

namespace Before

variable {b : C.Token} {ts us : List C.Token}

theorem nil : Before x b [] := nofun

theorem cons {c : C.Token} (hc : c ≠ .word x) (h : Before x b ts) : Before x b (c :: ts) := by
  intro i hi
  cases i with
  | zero => exact absurd (Option.some.inj hi) hc
  | succ i => exact h i hi

theorem word (h : Before x b (b :: ts)) : Before x b (.word x :: b :: ts) := by
  intro i hi
  cases i with
  | zero => rfl
  | succ i => exact h i hi

/-- No name is among reserved words. -/
theorem append (hx : isReserved x = false) (hts : onlyReserved ts) (h : Before x b us) :
    Before x b (ts ++ us) := by
  induction ts with
  | nil => exact h
  | cons c ts ih =>
    obtain ⟨hc, hts⟩ := Bool.and_eq_true_iff.mp hts
    refine cons ?_ (ih hts)
    rintro rfl
    exact absurd hc (by simp [hx])

theorem of_onlyReserved (hx : isReserved x = false) (hts : onlyReserved ts) : Before x b ts := by
  simpa using append hx hts (nil : Before x b [])

end Before

/-- **In a template a bracket follows a name just if the template prints an array.** -/
theorem bracket_in {use : Use} {d : Declaration} (hfree : isReserved d.name = false)
    (huse : slot.use? = some use) (hslot : slot ≠ .target ∧ slot ≠ .operand ∧ slot ≠ .callee) :
    ∃ m, Before d.name (.mark m) (slot.fragmentFor d).tokens ∧ (m = "[" ↔ slot = .printedText) := by
  cases slot with
  | skipped | written | declared | constantValue | arrayBound | relation => cases huse
  | target | operand | callee => simp at hslot
  | printed form =>
    refine ⟨")", ?_, by simp⟩
    have hrest : Before d.name (.mark ")") [.mark ")", .mark ";"] :=
      .of_onlyReserved hfree (by decide)
    cases form with
    | decimal =>
      exact .append hfree (by decide +kernel : onlyReserved [.mark "(", .word "void", .mark ")",
        .word "fprintf", .mark "(", .word "stdout", .mark ",", .quoted "\"%ld\"", .mark ",",
        .mark "(", .word "long", .mark ")"]) (.word hrest)
    | character =>
      exact .append hfree (by decide +kernel : onlyReserved [.mark "(", .word "void", .mark ")",
        .word "fprintf", .mark "(", .word "stdout", .mark ",", .quoted "\"%c\"", .mark ",",
        .mark "(", .word "unsigned", .word "char", .mark ")"]) (.word hrest)
  | stored form =>
    refine ⟨"=", ?_, by simp⟩
    cases form with
    | decimal =>
      have hstore : Before d.name (.mark "=") (storeTokens d.name) :=
        .word (.of_onlyReserved hfree (by decide +kernel))
      exact .append hfree (by decide +kernel : onlyReserved readLineTokens)
        (.append hfree (by decide +kernel : onlyReserved cutLineTokens) hstore)
    | character => exact .word (.of_onlyReserved hfree (by decide +kernel))
  | printedText =>
    refine ⟨"[", ?_, by simp⟩
    have hput : Before d.name (.mark "[") (.word d.name :: .mark "[" ::
        [.word "__writestridx", .mark "++", .mark "]", .mark ")", .mark ";"]) :=
      .word (.of_onlyReserved hfree (by decide +kernel))
    have htest : Before d.name (.mark "[") (.word d.name :: .mark "[" ::
        ([.word "__writestridx", .mark "]", .mark "!=", .quoted "'\\0'", .mark ")", .mark "(",
          .word "void", .mark ")", .word "putchar", .mark "(", .mark "(", .word "unsigned",
          .word "char", .mark ")"] ++ _)) :=
      .word (.cons nofun (.append hfree (by decide +kernel) hput))
    exact .append hfree (by decide +kernel : onlyReserved startTokens)
      (.append hfree (by decide +kernel : onlyReserved [.word "while", .mark "(",
        .word "__writestridx", .mark "<"]) (.cons nofun (.cons nofun htest)))

end PlZero
