import PlZero.Proofs.Numbers
import PlZero.Proofs.Translation

/-!
# Digits do not matter

The compiler uses the value of a number, and never the digits that the number was spelled with. From
a state without these digits (`State.unspelled`) every step does the same (`step_unspelled`), and so
does a run (`run_unspelled`); only a message may quote the digits. So texts that are spelled alike
but for separators and zeros in front of numbers are both accepted or both refused, and the same is
written for both (`same_output_of_unspelled`).
-/

namespace PlZero

open Goal

variable {s : State} {t : Token} {source : Source}

/-! ### States without digits -/

/-- The state without the digits of the numbers that are still to be read. -/
def State.unspelled (s : State) : State :=
  { s with lookahead := s.lookahead.map Token.unspelled, ahead := s.ahead.map Item.unspelled }

@[simp]
theorem State.depth_unspelled (s : State) : s.unspelled.depth = s.depth := rfl

@[simp]
theorem State.scope_unspelled (s : State) : s.unspelled.scope = s.scope := rfl

@[simp]
theorem State.value_lookahead_unspelled (s : State) :
    s.unspelled.lookahead.value = s.lookahead.value.unspelled := rfl

/-- The second outcome is what the first one is without digits. A failure keeps its line. -/
inductive Outcome.Unspells {α : Type} : Outcome α → Outcome α → Prop
  | ok {a : α} {s r : State} (state_eq : r = s.unspelled) : Unspells (.ok a s) (.ok a r)
  | error {f e : Located Failure} {s r : State} (line_eq : e.line = f.line)
    (state_eq : r = s.unspelled) : Unspells (.error f s) (.error e r)

theorem State.unspells_fail {α : Type} (s : State) (f e : Failure) :
    (s.fail f : Outcome α).Unspells (s.unspelled.fail e) := .error rfl rfl

theorem Outcome.Unspells.leavesNone {o o' : Outcome Unit} (h : o.Unspells o') :
    o.leavesNone.Unspells o'.leavesNone := by
  cases h with
  | ok state_eq => exact .ok state_eq
  | error line_eq state_eq => exact .error line_eq state_eq

theorem State.unspelled_write? (s : State) (f : Option Fragment) :
    s.unspelled.write? f = (s.write? f).unspelled := by
  cases f <;> rfl

theorem State.unspells_fetch (s : State) : s.fetch.Unspells s.unspelled.fetch := by
  simp only [fetch, unspelled]
  rcases s.ahead with _ | ⟨⟨line, e | t⟩, rest⟩
  · exact .ok rfl
  · exact .error rfl rfl
  · exact .ok rfl

/-! ### Single steps -/

theorem expansion_unspelled (n : Nonterminal) (t : Token) {goals : List Goal} :
    n.expansion t.unspelled = .ok goals ↔ n.expansion t = .ok goals := by
  cases t with
  | number => cases n <;> simp [Nonterminal.expansion, Token.unspelled, Nonterminal.statementGoals]
  | _ => rfl

theorem fill_unspelled (slot : Slot) (depth : Nat) (scope : Scope) (t : Token)
    {r : Scope × Option Fragment} :
    slot.fill depth scope t.unspelled = .ok r ↔ slot.fill depth scope t = .ok r := by
  cases t with
  | number v digits =>
    cases slot with
    | skipped f | written f => cases f <;> simp [Slot.fill, Token.unspelled, Fixed.token]
    | _ => simp [Slot.fill, Token.unspelled, relationFragment?]
  | _ => rfl

theorem perform_unspelled (a : Action) (s : State) :
    (a.perform s).Unspells (a.perform s.unspelled) := by
  cases a with
  | write f => exact .ok (s.unspelled_write? (some f))
  | fetch => exact s.unspells_fetch
  | closeScope => exact .ok rfl
  | checkAtEnd =>
    have hend : s.lookahead.value.unspelled = .endOfInput ↔ s.lookahead.value = .endOfInput := by
      cases s.lookahead.value <;> simp [Token.unspelled]
    simp only [Action.perform, State.value_lookahead_unspelled, hend]
    split
    · exact .ok rfl
    · exact s.unspells_fail _ _
  | enter =>
    simp only [Action.perform]
    by_cases hdepth : s.depth > Scope.maxDepth
    · rw [if_pos hdepth, if_pos (c := s.unspelled.depth > Scope.maxDepth) hdepth]
      exact s.unspells_fail _ _
    · rw [if_neg hdepth, if_neg (c := s.unspelled.depth > Scope.maxDepth) hdepth]
      exact .ok rfl
  | leave | checkArray | checkPlain =>
    simp only [Action.perform, State.depth_unspelled, State.scope_unspelled]
    split
    all_goals first | exact s.unspells_fail _ _ | exact .ok rfl

/-- **A step does the same without the digits.** -/
theorem step_unspelled (g : Goal) (s : State) : (step g s).Unspells (step g s.unspelled) := by
  cases g with
  | expand n =>
    have hsame := @expansion_unspelled n s.lookahead.value
    simp only [step, State.value_lookahead_unspelled]
    cases h : n.expansion s.lookahead.value with
    | ok goals =>
      rw [hsame.mpr h]
      exact .ok rfl
    | error e =>
      cases h' : n.expansion s.lookahead.value.unspelled with
      | ok goals => cases h.symm.trans (hsame.mp h')
      | error e' => exact s.unspells_fail _ _
  | fill slot =>
    have hsame := @fill_unspelled slot s.depth s.scope s.lookahead.value
    simp only [step_fill_eq, State.depth_unspelled, State.scope_unspelled,
      State.value_lookahead_unspelled]
    cases h : slot.fill s.depth s.scope s.lookahead.value with
    | ok r =>
      obtain ⟨scope, f⟩ := r
      have hfetch := State.unspells_fetch (({ s with scope := scope } : State).write? f)
      rw [← State.unspelled_write?] at hfetch
      rw [hsame.mpr h]
      exact hfetch.leavesNone
    | error e =>
      -- The message may be another one, since it may quote the digits.
      cases h' : slot.fill s.depth s.scope s.lookahead.value.unspelled with
      | ok r => cases h.symm.trans (hsame.mp h')
      | error e' => exact s.unspells_fail _ _
  | perform a => exact (perform_unspelled a s).leavesNone

/-- **A run does the same without the digits.** -/
theorem run_unspelled (goals : List Goal) (s : State) :
    (run goals s).Unspells (run goals s.unspelled) := by
  induction goals, s using run_induction with
  | nil s =>
    rw [run_nil, run_nil]
    exact .ok rfl
  | stop g gs s f t hstep =>
    have hsame := step_unspelled g s
    rw [run_cons, run_cons, hstep]
    rw [hstep] at hsame
    generalize step g s.unspelled = o at hsame
    cases hsame with
    | error line_eq state_eq => exact .error line_eq state_eq
  | next g gs s more t hstep ih =>
    have hsame := step_unspelled g s
    rw [run_cons, run_cons, hstep]
    rw [hstep] at hsame
    generalize step g s.unspelled = o at hsame
    cases hsame with
    | ok state_eq => exact state_eq ▸ ih

/-! ### Texts with other spellings -/

/-- The account of an outcome without digits has the same pieces, and ends as well or as badly. -/
theorem Outcome.Unspells.account {o o' : Outcome Unit} (h : o.Unspells o') :
    o'.account.pieces = o.account.pieces ∧
      (o'.account.failure? = none ↔ o.account.failure? = none) := by
  cases h with
  | ok state_eq => exact ⟨by rw [state_eq]; rfl, Iff.rfl⟩
  | error _ state_eq =>
    exact ⟨by rw [state_eq]; rfl, by simp [Outcome.account, Account.failure?]⟩

/-- The output depends on the items without their digits only. -/
theorem same_output_of_unspelled {a b : Source}
    (h : a.items.map Item.unspelled = b.items.map Item.unspelled) :
    ((compile a).deliver .unlimited).bytes = ((compile b).deliver .unlimited).bytes ∧
      (((compile a).deliver .unlimited).failure? = none ↔
        ((compile b).deliver .unlimited).failure? = none) := by
  have hunspelled (source : Source) : (compileItems source.items).Unspells
      (compileItems (source.items.map Item.unspelled)) :=
    run_unspelled programGoals (.start source.items)
  obtain ⟨hpieces, hending⟩ := (hunspelled a).account
  obtain ⟨hpieces', hending'⟩ := (h ▸ hunspelled b).account
  simp only [deliver_unlimited, Account.text]
  exact ⟨by rw [compile, compile, ← hpieces, hpieces'], hending.symm.trans hending'⟩

end PlZero
