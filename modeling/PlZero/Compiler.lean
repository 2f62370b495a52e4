import PlZero.Compiler.Step
import PlZero.Delivery

/-!
# Compiling

A run works off a list of goals (`run`). It ends because filling a slot takes a token
(`unread_of_fill`), and because between two tokens a nonterminal stands for only so many
others (`pending_of_step`). So a run goes from slot to slot: `settle` works off the goals in
front of the next one.

A run is also just one step after another (`run_cons`), which is how facts about runs are
proved (`run_induction`), and it can be cut between any two goals (`run_append`).

A program is compiled by a run that works off the goals of a whole program on the items of its
text, and that writes to a sink (`compileInto`). The same run can be recorded (`compileItems`);
its account (`compile`) is the text of what it has written, and how it has ended.
-/

namespace PlZero

/-! ### Steps without a token -/

/-- More steps than a nonterminal takes before the next token is read or the nonterminal is
done. -/
def Nonterminal.rank : Nonterminal → Nat
  | .block _ => 13
  | .condition => 10
  | .expression => 8
  | .term => 5
  | .index _ => 3
  | _ => 2

/-- How many steps may follow before the next token is read. -/
def pending : List Goal → Nat
  | [] => 0
  | .fill _ :: _ => 1
  | .perform _ :: goals => 1 + pending goals
  | .expand n :: goals => n.rank + pending goals

theorem pending_append_le (gs hs : List Goal) : pending (gs ++ hs) ≤ pending gs + pending hs := by
  induction gs with
  | nil => simp [pending]
  | cons g gs ih => cases g <;> simp [pending] <;> omega

/-- What a nonterminal stands for is closer to the next token than the nonterminal itself. -/
theorem pending_expansion_lt {n : Nonterminal} {t : Token} {goals : List Goal}
    (h : n.expansion t = .ok goals) : pending goals < n.rank := by
  cases n with
  | block b =>
    cases h
    cases b <;> simp [Nonterminal.blockGoals, pending, Nonterminal.rank]
  | statement =>
    cases h
    unfold Nonterminal.statementGoals
    split <;> simp [pending, Nonterminal.rank]
  | term =>
    cases h
    simp [pending, Nonterminal.rank]
  | _ =>
    simp only [Nonterminal.expansion] at h
    split at h <;> cases h <;>
      simp [pending, Nonterminal.rank, Nonterminal.procedureGoals]

/-! ### The end of a run -/

section

variable {ω : Type}

namespace State

@[simp]
theorem lookahead_write? (s : State) (f : Option Fragment) :
    (s.write? f).lookahead = s.lookahead := by
  cases f <;> rfl

@[simp]
theorem ahead_write? (s : State) (f : Option Fragment) : (s.write? f).ahead = s.ahead := by
  cases f <;> rfl

/-- Writing changes nothing but the output. -/
theorem exists_into_of_emit [Output ω] {s s' : State ω} {f : Fragment} {u : Unit}
    (h : s.emit f = .ok u s') : ∃ out, s' = s.into out := by
  unfold emit onOutput at h
  split at h
  · next out _ =>
    cases h
    exact ⟨out, rfl⟩
  · cases h

theorem exists_into_of_emit? [Output ω] {s s' : State ω} {f : Option Fragment} {u : Unit}
    (h : s.emit? f = .ok u s') : ∃ out, s' = s.into out := by
  cases f with
  | none =>
    cases h
    exact ⟨s.written, rfl⟩
  | some f => exact exists_into_of_emit h

/-- Fetching an item uses it up. -/
theorem unread_of_fetch {s s' : State ω} {u : Unit} (h : s.fetch = .ok u s') :
    s'.unread ≤ s.ahead.length := by
  unfold fetch at h
  split at h <;> cases h <;> simp only [unread, *, List.length_cons] <;> split <;> simp_all

theorem length_ahead_le_unread (s : State ω) : s.ahead.length ≤ s.unread := by
  simp [unread]

end State

variable [Output ω]

/-- An action takes no token back. -/
theorem unread_of_perform {a : Action} {s s' : State ω} {u : Unit} (h : a.perform s = .ok u s') :
    s'.unread ≤ s.unread := by
  cases a with
  | write f =>
    obtain ⟨out, rfl⟩ := State.exists_into_of_emit h
    exact Nat.le_refl _
  | fetch => exact Nat.le_trans (State.unread_of_fetch h) s.length_ahead_le_unread
  | _ =>
    simp only [Action.perform] at h
    repeat' split at h
    all_goals cases h
    all_goals exact Nat.le_refl _

/-- Filling a slot takes a token. -/
theorem unread_of_fill {slot : Slot} {s s' : State ω} {goals : List Goal}
    (h : step (.fill slot) s = .ok goals s') : goals = [] ∧ s'.unread < s.unread := by
  simp only [step] at h
  split at h
  · next scope f hfill =>
    have hne : s.lookahead.value ≠ .endOfInput := by
      intro hend
      rw [hend] at hfill
      exact slot.fill_endOfInput _ _ _ hfill
    cases hemit : State.emit? { s with scope := scope } f with
    | error e t =>
      rw [hemit] at h
      cases h
    | ok u t =>
      obtain ⟨out, rfl⟩ := State.exists_into_of_emit? hemit
      rw [hemit] at h
      simp only [Outcome.andThen] at h
      generalize hf : State.fetch _ = fetched at h
      cases fetched with
      | error e t => cases h
      | ok u t =>
        cases h
        refine ⟨rfl, Nat.lt_of_le_of_lt (State.unread_of_fetch hf) ?_⟩
        simp [State.unread, State.into, hne]
  · cases h

/-- A goal other than a slot brings the next token closer. -/
theorem pending_of_step {g : Goal} {gs goals : List Goal} {s s' : State ω}
    (hg : ∀ slot, g ≠ .fill slot) (h : step g s = .ok goals s') :
    pending (goals ++ gs) < pending (g :: gs) := by
  cases g with
  | fill slot => exact absurd rfl (hg slot)
  | expand n =>
    simp only [step] at h
    split at h
    · next more hmore =>
      cases h
      have := pending_expansion_lt hmore
      have := pending_append_le goals gs
      simp only [pending]
      omega
    · cases h
  | perform a =>
    simp only [step] at h
    generalize a.perform s = performed at h
    cases performed with
    | error e t => cases h
    | ok u t =>
      cases h
      simp [pending]

/-- A step takes no token back. -/
theorem unread_of_step {g : Goal} {goals : List Goal} {s s' : State ω}
    (h : step g s = .ok goals s') : s'.unread ≤ s.unread := by
  cases g with
  | fill slot => exact Nat.le_of_lt (unread_of_fill h).2
  | expand n =>
    simp only [step] at h
    split at h
    · cases h
      exact Nat.le_refl _
    · cases h
  | perform a =>
    simp only [step] at h
    generalize hp : a.perform s = performed at h
    cases performed with
    | error e t => cases h
    | ok u t =>
      cases h
      exact unread_of_perform hp

/-- Works off the goals in front of the next slot. What comes back is that slot and the
goals behind it, unless no goal is left. -/
def settle (goals : List Goal) (s : State ω) : Outcome (Option (Slot × List Goal)) ω :=
  match goals with
  | [] => .ok none s
  | .fill slot :: gs => .ok (some (slot, gs)) s
  | .expand n :: gs =>
    match _h : step (.expand n) s with
    | .ok more s' => settle (more ++ gs) s'
    | .error f s' => .error f s'
  | .perform a :: gs =>
    match _h : step (.perform a) s with
    | .ok more s' => settle (more ++ gs) s'
    | .error f s' => .error f s'
termination_by pending goals
decreasing_by all_goals exact pending_of_step (by simp) _h

theorem unread_of_settle {goals : List Goal} {s s' : State ω} {next : Option (Slot × List Goal)}
    (h : settle goals s = .ok next s') : s'.unread ≤ s.unread := by
  fun_induction settle goals s with
  | case1 => cases h; exact Nat.le_refl _
  | case2 => cases h; exact Nat.le_refl _
  | case3 s n gs more t ht ih => exact Nat.le_trans (ih h) (unread_of_step ht)
  | case4 => cases h
  | case5 s a gs more t ht ih => exact Nat.le_trans (ih h) (unread_of_step ht)
  | case6 => cases h

/-- Works off all goals, or those in front of a failure. -/
def run (goals : List Goal) (s : State ω) : Outcome Unit ω :=
  match _h : settle goals s with
  | .error f s' => .error f s'
  | .ok none s' => .ok () s'
  | .ok (some (slot, gs)) s' =>
    match _hf : step (.fill slot) s' with
    | .ok more s'' => run (more ++ gs) s''
    | .error f s'' => .error f s''
termination_by s.unread
decreasing_by exact Nat.lt_of_lt_of_le (unread_of_fill _hf).2 (unread_of_settle _h)

/-! ### Runs step by step -/

theorem settle_fill (slot : Slot) (gs : List Goal) (s : State ω) :
    settle (.fill slot :: gs) s = .ok (some (slot, gs)) s := by
  rw [settle]

theorem settle_cons {g : Goal} (hg : ∀ slot, g ≠ .fill slot) (gs : List Goal) (s : State ω) :
    settle (g :: gs) s =
      match step g s with
      | .ok more s' => settle (more ++ gs) s'
      | .error f s' => .error f s' := by
  cases g with
  | fill slot => exact absurd rfl (hg slot)
  | expand n => rw [settle]; split <;> simp_all
  | perform a => rw [settle]; split <;> simp_all

theorem run_eq (goals : List Goal) (s : State ω) :
    run goals s =
      match settle goals s with
      | .error f s' => .error f s'
      | .ok none s' => .ok () s'
      | .ok (some (slot, gs)) s' =>
        match step (.fill slot) s' with
        | .ok more s'' => run (more ++ gs) s''
        | .error f s'' => .error f s'' := by
  rw [run]
  split
  · simp_all
  · simp_all
  · split <;> simp_all

theorem run_nil (s : State ω) : run [] s = .ok () s := by
  rw [run_eq, settle]

/-- The first goal is worked off first. -/
theorem run_cons (g : Goal) (gs : List Goal) (s : State ω) :
    run (g :: gs) s =
      match step g s with
      | .ok more s' => run (more ++ gs) s'
      | .error f s' => .error f s' := by
  rw [run_eq]
  cases g with
  | fill slot => rw [settle_fill]
  | _ =>
    rw [settle_cons (by simp)]
    cases step _ s with
    | ok more s' => exact (run_eq (more ++ gs) s').symm
    | error f s' => rfl

/-- Each step takes a token, or it takes none back and brings the next one closer. -/
theorem step_decreases {g : Goal} {gs goals : List Goal} {s s' : State ω}
    (h : step g s = .ok goals s') :
    Prod.Lex (· < ·) (· < ·) (s'.unread, pending (goals ++ gs)) (s.unread, pending (g :: gs)) := by
  rcases Nat.lt_or_eq_of_le (unread_of_step h) with hlt | heq
  · exact .left _ _ hlt
  · rw [heq]
    refine .right _ (pending_of_step ?_ h)
    rintro slot rfl
    exact Nat.ne_of_lt (unread_of_fill h).2 heq

/-- What holds where a run ends, and holds before a step if it holds after it, holds of all
goals and states. -/
@[elab_as_elim]
theorem run_induction {motive : List Goal → State ω → Prop} (nil : ∀ s, motive [] s)
    (stop : ∀ g gs s f s', step g s = .error f s' → motive (g :: gs) s)
    (next : ∀ g gs s more s', step g s = .ok more s' → motive (more ++ gs) s' → motive (g :: gs) s)
    (goals : List Goal) (s : State ω) : motive goals s :=
  match goals with
  | [] => nil s
  | g :: gs =>
    match h : step g s with
    | .error f s' => stop g gs s f s' h
    | .ok more s' => next g gs s more s' h (run_induction nil stop next (more ++ gs) s')
termination_by (s.unread, pending goals)
decreasing_by exact step_decreases h

/-- Goals are worked off from the left, so a run can be cut between any two of them. -/
theorem run_append (gs hs : List Goal) (s : State ω) :
    run (gs ++ hs) s =
      match run gs s with
      | .ok _ s' => run hs s'
      | .error f s' => .error f s' := by
  induction gs, s using run_induction with
  | nil s => simp [run_nil]
  | stop g gs s f s' h => simp [run_cons, h]
  | next g gs s more s' h ih => simp [run_cons, h, ← ih]

end

/-! ### Whole programs -/

/-- What has been written is flushed once the run has come to its end; otherwise the run stops
before. -/
def Outcome.flush {σ : Type} [Sink σ] (o : Outcome Unit σ) : Outcome Unit σ :=
  o.andThen fun s => s.onOutput Sink.flush

/-- Compiles a program into a sink. -/
def compileInto {σ : Type} [Sink σ] (source : Source) : EStateM (Located Failure) σ Unit :=
  fun out =>
    match (run programGoals ((State.start source.items).into out)).flush with
    | .ok _ s => .ok () s.written
    | .error f s => .error f s.written

/-- The recorded run that compiles a whole program. -/
def compileItems (items : List Item) : Outcome Unit :=
  run programGoals (.start items)

/-- What a recorded run has written, and how it has ended. -/
def Outcome.account : Outcome Unit → Account
  | .ok _ s => ⟨s.written.toList.map (Located.map Fragment.text), .ok s.lookahead.line⟩
  | .error f s => ⟨s.written.toList.map (Located.map Fragment.text), .error f⟩

/-- The account of compiling a program. -/
def compile (source : Source) : Account :=
  (compileItems source.items).account

end PlZero
