import PlZero.Proofs.Recognition
import PlZero.Proofs.Visits

/-!
# What a run looks at

Two states are alike if they look at the same token in the same situation (`State.Alike`). What a
run does depends on no more than this and on the items that it fetches: from states that are alike
it does the same as long as it fetches the same (`run_alike`), whatever follows these items, and on
whatever lines they stand.
-/

namespace PlZero

open Goal

/-- The states look at the same token, in the same scope and in as many blocks, and the same has
been written; the lines and what is ahead may be different. -/
structure State.Alike (s r : State) : Prop where
  token_eq : s.lookahead.value = r.lookahead.value
  scope_eq : s.scope = r.scope
  depth_eq : s.depth = r.depth
  fragments_eq : s.fragments = r.fragments

/-- The same comes out, in states that are alike. -/
def Outcome.Alike {α : Type} : Outcome α → Outcome α → Prop
  | .ok a s, .ok b r => a = b ∧ s.Alike r
  | .error f s, .error e r => f.value = e.value ∧ s.Alike r
  | _, _ => False

variable {s r : State} {g : Goal}

theorem State.Alike.fail {α : Type} (h : s.Alike r) (f : Failure) :
    (s.fail f : Outcome α).Alike (r.fail f) := ⟨rfl, h⟩

theorem State.Alike.write (h : s.Alike r) (f : Fragment) : (s.write f).Alike (r.write f) where
  token_eq := h.token_eq
  scope_eq := h.scope_eq
  depth_eq := h.depth_eq
  fragments_eq := by simp [h.fragments_eq]

theorem State.Alike.write? (h : s.Alike r) (f : Option Fragment) :
    (s.write? f).Alike (r.write? f) := by
  cases f with
  | none => exact h
  | some f => exact h.write f

/-- Fetching items with the same value does the same. -/
theorem State.Alike.fetch (h : s.Alike r) {i j : Item} {is js : List Item} (hs : s.ahead = i :: is)
    (hr : r.ahead = j :: js) (hvalue : i.value = j.value) : s.fetch.Alike r.fetch := by
  obtain ⟨line, i⟩ := i
  obtain ⟨line', j⟩ := j
  obtain rfl : i = j := hvalue
  cases i with
  | ok t =>
    simp only [State.fetch, hs, hr]
    exact ⟨rfl, rfl, h.scope_eq, h.depth_eq, h.fragments_eq⟩
  | error e =>
    simp only [State.fetch, hs, hr]
    exact ⟨rfl, h.token_eq, h.scope_eq, h.depth_eq, h.fragments_eq⟩

theorem State.ahead_fetch {i : Item} {is : List Item} (hs : s.ahead = i :: is) :
    s.fetch.state.ahead = is := by
  obtain ⟨line, i⟩ := i
  cases i <;> simp [State.fetch, hs, Outcome.state]

theorem Outcome.Alike.leavesNone {o o' : Outcome Unit} (h : o.Alike o') :
    o.leavesNone.Alike o'.leavesNone := by
  cases o with
  | ok a s =>
    cases o' with
    | ok b r => exact ⟨rfl, h.2⟩
    | error e r => exact h.elim
  | error f s =>
    cases o' with
    | ok b r => exact h.elim
    | error e r => exact h

/-- An action that does not fetch does the same, and leaves alone what is ahead. -/
theorem State.Alike.perform (h : s.Alike r) {a : Action} (ha : a ≠ .fetch) :
    (a.perform s).Alike (a.perform r) := by
  cases a with
  | fetch => exact absurd rfl ha
  | write f => exact ⟨rfl, h.write f⟩
  | closeScope =>
    exact ⟨rfl, h.token_eq, congrArg Scope.close h.scope_eq, h.depth_eq, h.fragments_eq⟩
  | enter =>
    simp only [Action.perform, ← h.depth_eq]
    split
    · exact h.fail _
    · exact ⟨rfl, h.token_eq, h.scope_eq, rfl, h.fragments_eq⟩
  | leave =>
    simp only [Action.perform, ← h.depth_eq]
    split
    · exact h.fail _
    · exact ⟨rfl, h.token_eq, h.scope_eq, rfl, h.fragments_eq⟩
  | checkArray x | checkPlain x =>
    simp only [Action.perform, ← h.scope_eq]
    split
    · exact ⟨rfl, h⟩
    · exact h.fail _
  | checkAtEnd =>
    simp only [Action.perform, ← h.token_eq]
    split
    · exact ⟨rfl, h⟩
    · exact h.fail _

theorem ahead_perform {a : Action} (ha : a ≠ .fetch) : (a.perform s).state.ahead = s.ahead := by
  cases a with
  | fetch => exact absurd rfl ha
  | write f => rfl
  | closeScope => rfl
  | _ =>
    simp only [Action.perform]
    split <;> rfl

/-- Where the token that is looked at fills a slot, another item is ahead, since the end of the
input fills none. -/
theorem exists_ahead_of_fill {slot : Slot} {r : Scope × Option Fragment} (hs : s.Bounded)
    (hfill : slot.fill s.depth s.scope s.lookahead.value = .ok r) :
    ∃ i is, s.ahead = i :: is := by
  rw [← List.ne_nil_iff_exists_cons]
  intro hnil
  have hend : s.lookahead.value = .endOfInput := hs _ (by simp [State.upcoming, hnil])
  rw [hend] at hfill
  exact slot.fill_endOfInput _ _ _ hfill

/-- **A step depends on what it fetches only.** What it fetches stands ahead, and from a state that
is alike, with the same ahead, it does the same. -/
theorem step_alike (hs : s.Bounded) (hg : g ≠ perform .fetch) :
    ∃ pulled : List Item, s.ahead = pulled ++ (step g s).state.ahead ∧ ∀ r rest, s.Alike r →
      r.ahead.map Located.value = pulled.map Located.value ++ rest →
        (step g s).Alike (step g r) ∧ (step g r).state.ahead.map Located.value = rest := by
  cases g with
  | expand n =>
    refine ⟨[], ?_, fun r rest h hrest => ?_⟩
    · simp only [step]
      split <;> rfl
    · simp only [step, ← h.token_eq]
      split
      · exact ⟨⟨rfl, h⟩, hrest⟩
      · exact ⟨h.fail _, hrest⟩
  | perform a =>
    have ha : a ≠ .fetch := by simpa using hg
    refine ⟨[], ?_, fun r rest h hrest => ⟨(h.perform ha).leavesNone, ?_⟩⟩
    · rw [step, Outcome.state_leavesNone, ahead_perform ha, List.nil_append]
    · rw [step, Outcome.state_leavesNone, ahead_perform ha]
      exact hrest
  | fill slot =>
    cases hfill : slot.fill s.depth s.scope s.lookahead.value with
    | error e =>
      refine ⟨[], ?_, fun r rest h hrest => ?_⟩
      · simp [step, hfill, State.fail, Outcome.state]
      · simp only [step, ← h.token_eq, ← h.depth_eq, ← h.scope_eq, hfill]
        exact ⟨h.fail _, hrest⟩
    | ok result =>
      obtain ⟨scope, f⟩ := result
      have hahead (s : State) : ({ s with scope := scope }.write? f).ahead = s.ahead := by
        cases f <;> rfl
      obtain ⟨i, rest, hcons⟩ := exists_ahead_of_fill hs hfill
      refine ⟨[i], ?_, fun r rest' h hrest' => ?_⟩
      · rw [step_fill_eq, hfill, Outcome.state_leavesNone,
          State.ahead_fetch ((hahead s).trans hcons), hcons]
        rfl
      · obtain ⟨j, js, hr, hvalue, rfl⟩ := List.map_eq_cons_iff.mp hrest'
        have halike : ({ s with scope := scope } : State).Alike { r with scope := scope } :=
          ⟨h.token_eq, rfl, h.depth_eq, h.fragments_eq⟩
        have hfetch := (halike.write? f).fetch ((hahead s).trans hcons) ((hahead r).trans hr)
          hvalue.symm
        have hfill' : slot.fill r.depth r.scope r.lookahead.value = .ok (scope, f) := by
          rw [← h.token_eq, ← h.depth_eq, ← h.scope_eq, hfill]
        simp only [step_fill_eq, hfill, hfill']
        refine ⟨hfetch.leavesNone, ?_⟩
        rw [Outcome.state_leavesNone, State.ahead_fetch ((hahead r).trans hr)]

/-- **A run depends on what it fetches only.** -/
theorem run_alike {goals : List Goal} (hs : s.Bounded) (hgoals : perform .fetch ∉ goals) :
    ∃ pulled : List Item, s.ahead = pulled ++ (run goals s).state.ahead ∧ ∀ r rest, s.Alike r →
      r.ahead.map Located.value = pulled.map Located.value ++ rest →
        (run goals s).Alike (run goals r) ∧
          (run goals r).state.ahead.map Located.value = rest := by
  -- Each step keeps the two states alike, and the items that the steps fetch add up.
  induction goals, s using run_induction with
  | nil s =>
    refine ⟨[], by simp [run_nil, Outcome.state], fun r rest h hrest => ?_⟩
    rw [run_nil, run_nil]
    exact ⟨⟨rfl, h⟩, hrest⟩
  | stop g gs s f s' hstep =>
    have hg : g ≠ perform .fetch := fun hfetch => hgoals (hfetch ▸ List.mem_cons_self)
    obtain ⟨pulled, hpulled, hsame⟩ := step_alike hs hg
    rw [hstep] at hpulled hsame
    refine ⟨pulled, ?_, fun r rest h hrest => ?_⟩
    · rw [run_cons, hstep]
      exact hpulled
    · obtain ⟨halike, hrest'⟩ := hsame r rest h hrest
      rw [run_cons, run_cons, hstep]
      cases hr : step g r with
      | ok more r' => rw [hr] at halike; exact halike.elim
      | error e r' =>
        rw [hr] at halike hrest'
        exact ⟨halike, hrest'⟩
  | next g gs s more s' hstep ih =>
    have hg : g ≠ perform .fetch := fun hfetch => hgoals (hfetch ▸ List.mem_cons_self)
    obtain ⟨pulled, hpulled, hsame⟩ := step_alike hs hg
    rw [hstep] at hpulled hsame
    obtain ⟨later, hlater, hrun⟩ := ih (hs.step hg hstep) (fetch_not_mem_of_step hgoals hstep)
    refine ⟨pulled ++ later, ?_, fun r rest h hrest => ?_⟩
    · rw [run_cons, hstep, hpulled, List.append_assoc]
      exact congrArg (pulled ++ ·) hlater
    · obtain ⟨halike, hrest'⟩ := hsame r (later.map Located.value ++ rest) h (by simp [hrest])
      rw [run_cons, run_cons, hstep]
      cases hr : step g r with
      | error e r' => rw [hr] at halike; exact halike.elim
      | ok more' r' =>
        rw [hr] at halike hrest'
        obtain ⟨rfl, halike⟩ := halike
        exact hrun r' rest halike hrest'

end PlZero
