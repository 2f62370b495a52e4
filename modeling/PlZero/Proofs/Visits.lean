import PlZero.Proofs.Progress

/-!
# What a run comes by

Compiling a text comes by pairs of goals that are left and a state (`Visited`): the goals of a
program and the state at the start, and with each pair the next one. A fact about every place of a
program is a fact about the pairs in which a certain goal is the first.

A step that fails finds no token behind the one that it takes, or it leaves the state as it is and
fails on the token that is looked at, for one of a few reasons (`Fails`, `step_error`).

If the text is accepted, the run goes on from every such pair to the end (`Visited.run_eq`), so what
has been written there stands at the beginning of the output (`fragments_of_run`).
-/

namespace PlZero

open Goal

variable {items : List Item} {g : Goal} {gs goals more : List Goal} {s s' : State}

/-! ### Single steps -/

theorem step_expand {n : Nonterminal} (h : step (expand n) s = .ok more s') :
    n.expansion s.lookahead.value = .ok more ∧ s' = s := by
  simp only [step] at h
  split at h
  · next hmore =>
    cases h
    exact ⟨hmore, rfl⟩
  · cases h

theorem step_perform {a : Action} (h : step (perform a) s = .ok more s') :
    more = [] ∧ a.perform s = .ok () s' := by
  simp only [step] at h
  cases hperform : a.perform s with
  | error f t => rw [hperform] at h; cases h
  | ok u t =>
    rw [hperform] at h
    cases h
    exact ⟨rfl, rfl⟩

/-- Fetching an item changes nothing but what is still to be read. -/
theorem view_of_fetch {u : Unit} (h : s.fetch = .ok u s') :
    s'.scope = s.scope ∧ s'.depth = s.depth ∧ s'.written = s.written := by
  simp only [State.fetch] at h
  split at h <;> cases h <;> exact ⟨rfl, rfl, rfl⟩

theorem perform_enter (h : Action.enter.perform s = .ok () s') :
    s.depth ≤ 1 ∧ s' = { s with depth := s.depth + 1 } := by
  simp only [Action.perform] at h
  split at h
  · cases h
  · next hdepth =>
    cases h
    exact ⟨Nat.le_of_not_lt hdepth, rfl⟩

theorem perform_leave {n : Nat} (h : Action.leave.perform s = .ok () s')
    (hdepth : s.depth = n + 1) : s' = { s with depth := n } := by
  simp only [Action.perform, hdepth] at h
  cases h
  rfl

/-- A check changes nothing. -/
theorem perform_check {a : Action} (h : a.perform s = .ok () s')
    (ha : a = .checkAtEnd ∨ ∃ x, a = .checkArray x ∨ a = .checkPlain x) : s' = s := by
  rcases ha with rfl | ⟨x, rfl | rfl⟩ <;>
  · simp only [Action.perform] at h
    split at h <;> cases h
    rfl

/-- Filling a slot changes the scope and writes a fragment as `Slot.fill` says. -/
theorem step_fill {slot : Slot} (h : step (fill slot) s = .ok more s') :
    more = [] ∧ ∃ f, slot.fill s.depth s.scope s.lookahead.value = .ok (s'.scope, f) ∧
      s'.depth = s.depth ∧ s'.fragments = s.fragments ++ f.toList := by
  rw [step_fill_eq] at h
  cases hfill : slot.fill s.depth s.scope s.lookahead.value with
  | error e => rw [hfill] at h; cases h
  | ok r =>
    obtain ⟨scope, f⟩ := r
    simp only [hfill] at h
    cases hfetch : State.fetch (State.write? { s with scope := scope } f) with
    | error e t => rw [hfetch] at h; cases h
    | ok u t =>
      rw [hfetch] at h
      cases h
      obtain ⟨hscope, hdepth, hwritten⟩ := view_of_fetch hfetch
      have hfragments := State.fragments_write? { s with scope := scope } f
      refine ⟨rfl, f, ?_, ?_, ?_⟩
      · rw [hscope, State.scope_write?]
      · rw [hdepth, State.depth_write?]
      · rw [State.fragments, hwritten]
        exact hfragments

/-! ### Single steps that fail -/

/-- Fetching fails with the failure that is fetched. -/
theorem State.failure_of_fetch {f : Located Failure} (h : s.fetch = .error f s') :
    ∃ e is, s.ahead = ⟨f.line, .error e⟩ :: is ∧ f.value = .lexical e := by
  rw [State.fetch] at h
  split at h <;> cases h
  next e is hahead => exact ⟨e, is, hahead, rfl⟩

/-- **Why the work of a goal fails** on the token that is looked at. -/
inductive Fails (g : Goal) (s : State) : Failure → Prop
  | expansion {n : Nonterminal} {e : SyntaxError} (goal_eq : g = expand n)
    (expansion_eq : n.expansion s.lookahead.value = .error e) : Fails g s (.grammar e)
  | slot {slot : Slot} {f : Failure} (goal_eq : g = fill slot)
    (fill_eq : slot.fill s.depth s.scope s.lookahead.value = .error f) : Fails g s f
  | tooDeep (goal_eq : g = perform .enter) : Fails g s (.static .nestedTooDeep)
  | noBlock (goal_eq : g = perform .leave) (depth_eq : s.depth = 0) :
    Fails g s (.defect .depthBelowZero)
  | noArray {x : String} {e : StaticError} (goal_eq : g = perform (.checkArray x))
    (size_eq : s.scope.arraySize x = .error e) : Fails g s (.static e)
  | array {x : String} {e : StaticError} (goal_eq : g = perform (.checkPlain x))
    (check_eq : s.scope.checkPlain x = .error e) : Fails g s (.static e)
  | notAtEnd (goal_eq : g = perform .checkAtEnd) :
    Fails g s (.grammar (.notAtEnd s.lookahead.value))

/-- **A step that fails** finds no token behind the one that it takes, or fails on the token that is
looked at and leaves the state. -/
theorem step_error {f : Located Failure} (h : step g s = .error f s') :
    (∃ r : State, r.ahead = s.ahead ∧ r.fetched = s.fetched ∧ r.fetch = .error f s') ∨
      s' = s ∧ f.line = s.lookahead.line ∧ Fails g s f.value := by
  cases g with
  | expand n =>
    simp only [step] at h
    split at h <;> cases h
    next herr => exact .inr ⟨rfl, rfl, .expansion rfl herr⟩
  | fill slot =>
    simp only [step_fill_eq] at h
    split at h
    · next scope w hfill =>
      have hahead := State.ahead_write? { s with scope := scope } w
      have hfetched : (State.write? { s with scope := scope } w).fetched = s.fetched := by
        cases w <;> rfl
      cases hfetch : State.fetch (State.write? { s with scope := scope } w) with
      | ok u t =>
        rw [hfetch] at h
        cases h
      | error e t =>
        rw [hfetch] at h
        cases h
        exact .inl ⟨_, hahead, hfetched, hfetch⟩
    · next err hfill =>
      cases h
      exact .inr ⟨rfl, rfl, .slot rfl hfill⟩
  | perform a =>
    cases a with
    | write | closeScope => cases h
    | fetch =>
      rw [step] at h
      cases hfetch : State.fetch s with
      | ok u t =>
        rw [Action.perform, hfetch] at h
        cases h
      | error e t =>
        rw [Action.perform, hfetch] at h
        cases h
        exact .inl ⟨s, rfl, rfl, hfetch⟩
    | enter =>
      simp only [step, Action.perform] at h
      split at h <;> cases h
      exact .inr ⟨rfl, rfl, .tooDeep rfl⟩
    | leave =>
      simp only [step, Action.perform] at h
      split at h <;> cases h
      next hdepth => exact .inr ⟨rfl, rfl, .noBlock rfl hdepth⟩
    | checkArray x =>
      simp only [step, Action.perform] at h
      split at h <;> cases h
      next hsize => exact .inr ⟨rfl, rfl, .noArray rfl hsize⟩
    | checkPlain x =>
      simp only [step, Action.perform] at h
      split at h <;> cases h
      next hcheck => exact .inr ⟨rfl, rfl, .array rfl hcheck⟩
    | checkAtEnd =>
      simp only [step, Action.perform] at h
      split at h <;> cases h
      exact .inr ⟨rfl, rfl, .notAtEnd rfl⟩

/-- A step that fails on a token, and not on what is no token, leaves the state. -/
theorem fails_of_step {f : Failure} {line : Line} (h : step g s = .error ⟨line, f⟩ s')
    (hf : ∀ e, f ≠ .lexical e) : s' = s ∧ line = s.lookahead.line ∧ Fails g s f := by
  obtain ⟨r, -, -, hfetch⟩ | hfails := step_error h
  · obtain ⟨e, -, -, hvalue⟩ := State.failure_of_fetch hfetch
    exact absurd hvalue (hf e)
  · exact hfails

/-! ### What steps write -/

/-- Only one action writes. -/
theorem fragments_of_perform {a : Action} {u : Unit} (h : a.perform s = .ok u s')
    (ha : ∀ f, a ≠ .write f) : s'.fragments = s.fragments := by
  cases a with
  | write f => exact absurd rfl (ha f)
  | fetch =>
    have hwritten := (view_of_fetch h).2.2
    rw [State.fragments, State.fragments, hwritten]
  | closeScope =>
    cases h
    rfl
  | enter | leave | checkArray | checkPlain | checkAtEnd =>
    simp only [Action.perform] at h
    split at h <;> cases h
    rfl

/-- A step writes one fragment at most, behind what has been written. -/
theorem fragments_of_step (h : step g s = .ok more s') :
    ∃ f : Option Fragment, s'.fragments = s.fragments ++ f.toList := by
  cases g with
  | expand n =>
    obtain ⟨-, rfl⟩ := step_expand h
    exact ⟨none, by simp⟩
  | fill slot =>
    obtain ⟨-, f, -, -, hfragments⟩ := step_fill h
    exact ⟨f, hfragments⟩
  | perform a =>
    obtain ⟨-, hperform⟩ := step_perform h
    cases a with
    | write f =>
      cases hperform
      exact ⟨some f, State.fragments_write s f⟩
    | _ =>
      rw [fragments_of_perform hperform nofun]
      exact ⟨none, by simp⟩

/-- What has been written stands at the beginning of all that a run writes. -/
theorem fragments_of_run {u : Unit} (h : run goals s = .ok u s') :
    s.fragments <+: s'.fragments := by
  induction goals, s using run_induction with
  | nil s =>
    rw [run_nil] at h
    cases h
    exact List.prefix_rfl
  | stop g gs s f t hstep => simp [run_cons, hstep] at h
  | next g gs s more t hstep ih =>
    rw [run_cons, hstep] at h
    obtain ⟨f, hf⟩ := fragments_of_step hstep
    exact (List.prefix_append s.fragments f.toList).trans (hf ▸ ih h)

/-! ### Visits -/

/-- Compiling the items comes by these goals and this state. -/
inductive Visited (items : List Item) : List Goal → State → Prop
  | start : Visited items programGoals (.start items)
  | next {g : Goal} {gs more : List Goal} {s s' : State} (visited : Visited items (g :: gs) s)
    (step_eq : step g s = .ok more s') : Visited items (more ++ gs) s'

/-- The rest of the run ends as the whole run does. -/
theorem Visited.run_eq (h : Visited items goals s) : run goals s = compileItems items := by
  induction h with
  | start => rfl
  | next _ step_eq ih => rw [← ih, run_cons, step_eq]

/-- **A goal that stands first** has stood there from the start, or behind a goal that has left no
others, or a nonterminal begins with it. -/
theorem Visited.first_cases (h : Visited items (g :: gs) s) :
    g :: gs = programGoals ∨
      (∃ g₀ s₀, Visited items (g₀ :: g :: gs) s₀ ∧ step g₀ s₀ = .ok [] s) ∨
      ∃ n more gs₀, gs = more ++ gs₀ ∧ Visited items (expand n :: gs₀) s ∧
        n.expansion s.lookahead.value = .ok (g :: more) := by
  generalize hgoals : g :: gs = goals at h
  cases h with
  | start => exact .inl rfl
  | @next g₀ gs₀ more s₀ s visited step_eq =>
    cases more with
    | nil =>
      obtain rfl : g :: gs = gs₀ := hgoals
      exact .inr (.inl ⟨g₀, s₀, visited, step_eq⟩)
    | cons first more =>
      obtain ⟨rfl, rfl⟩ := List.cons.inj hgoals
      cases g₀ with
      | fill => cases (step_fill step_eq).1
      | perform => cases (step_perform step_eq).1
      | expand n =>
        obtain ⟨hexpansion, rfl⟩ := step_expand step_eq
        exact .inr (.inr ⟨n, more, gs₀, rfl, visited, hexpansion⟩)

/-- In a run that does not fail, the first goal does not fail either. -/
theorem exists_step {u : Unit} {t : State} (h : run (g :: gs) s = .ok u t) :
    ∃ more s', step g s = .ok more s' ∧ run (more ++ gs) s' = .ok u t := by
  rw [run_cons] at h
  cases hstep : step g s with
  | ok more s' => exact ⟨more, s', rfl, by rwa [hstep] at h⟩
  | error f s' => rw [hstep] at h; cases h

/-- **Each fragment that a run writes is written by one of its steps**, behind the fragments before
it. -/
theorem Visited.exists_writer {u : Unit} {t : State} {before after : List Fragment} {f : Fragment}
    (hvisited : Visited items goals s) (hrun : run goals s = .ok u t)
    (hsplit : t.fragments = before ++ f :: after) (hle : s.fragments.length ≤ before.length) :
    ∃ g gs more s₁ s₂, Visited items (g :: gs) s₁ ∧ step g s₁ = .ok more s₂ ∧
      s₁.fragments = before ∧ s₂.fragments = before ++ [f] := by
  induction goals, s using run_induction with
  | nil s =>
    rw [run_nil] at hrun
    cases hrun
    rw [hsplit, List.length_append, List.length_cons] at hle
    omega
  | stop g gs s e s' hstep => simp [run_cons, hstep] at hrun
  | next g gs s more s' hstep ih =>
    have hrest := hrun
    rw [run_cons, hstep] at hrest
    by_cases hle' : s'.fragments.length ≤ before.length
    · exact ih (hvisited.next hstep) hrest hle'
    · -- The step writes the fragment, since it writes no more than one.
      obtain ⟨f', hf'⟩ := fragments_of_step hstep
      cases f' with
      | none => simp [hf', hle] at hle'
      | some f' =>
        have hlength : s.fragments.length = before.length := by
          simp [hf'] at hle'
          omega
        obtain ⟨fs, hfs⟩ := fragments_of_run hrest
        rw [hf', hsplit, Option.toList_some, List.append_assoc] at hfs
        obtain ⟨hbefore, hfirst⟩ := List.append_inj hfs hlength
        obtain ⟨rfl, -⟩ := List.cons.inj hfirst
        exact ⟨g, gs, more, s, s', hvisited, hstep, hbefore, by rw [hf', hbefore]; rfl⟩

end PlZero
