import PlZero.Compiler
import PlZero.Proofs.Tree

/-!
# What a run takes and writes

Of a state, the lines are left aside here: `State.upcoming` is what is still to be read, the
token that is looked at first, and `State.fragments` what has been written.

Working off some goals *realizes* (`Realizes`) a list of tokens, a list of fragments and an
outcome for the scope, if the run takes just these tokens, writes just these fragments and
leaves that scope; or, where the outcome is a broken rule, if the run stops with that rule.
Realizing is compositional in the goals (`Realizes.append`), and each kind of goal that stands
for one token or none has its own lemma.
-/

namespace PlZero

/-! ### Views of a state -/

namespace State

/-- What is still to be read, without the lines. -/
def upcoming (s : State) : List (Except LexicalError Token) :=
  .ok s.lookahead.value :: s.ahead.map Located.value

/-- What has been written, without the lines. -/
def fragments (s : State) : List Fragment :=
  s.written.toList.map Located.value

/-- The state `s'` has taken the tokens `ts` since `s`, and written the fragments `fs`. -/
structure Took (s : State) (ts : List Token) (fs : List Fragment) (s' : State) : Prop where
  upcoming_eq : s.upcoming = ts.map .ok ++ s'.upcoming
  fragments_eq : s'.fragments = s.fragments ++ fs
  depth_eq : s'.depth = s.depth

theorem Took.refl (s : State) : s.Took [] [] s :=
  ⟨by simp, by simp, rfl⟩

theorem Took.trans {s t u : State} {ts us : List Token} {fs gs : List Fragment}
    (h : s.Took ts fs t) (h' : t.Took us gs u) : s.Took (ts ++ us) (fs ++ gs) u where
  upcoming_eq := by simp [h.upcoming_eq, h'.upcoming_eq]
  fragments_eq := by simp [h.fragments_eq, h'.fragments_eq]
  depth_eq := h'.depth_eq.trans h.depth_eq

theorem lookahead_of_upcoming {s : State} {t : Token} {r : List (Except LexicalError Token)}
    (h : s.upcoming = .ok t :: r) : s.lookahead.value = t := by
  simpa [upcoming] using (List.cons.inj h).1

@[simp]
theorem fragments_write (s : State) (f : Fragment) :
    (s.write f).fragments = s.fragments ++ [f] := by
  simp [write, fragments]

@[simp]
theorem fragments_write? (s : State) (f : Option Fragment) :
    (s.write? f).fragments = s.fragments ++ f.toList := by
  cases f <;> simp [write?]

@[simp]
theorem depth_write? (s : State) (f : Option Fragment) : (s.write? f).depth = s.depth := by
  cases f <;> rfl

@[simp]
theorem scope_write? (s : State) (f : Option Fragment) : (s.write? f).scope = s.scope := by
  cases f <;> rfl

end State

/-- The state that a part of a run reaches, also where it fails. -/
def Outcome.state {α : Type} : Outcome α → State
  | .ok _ s | .error _ s => s

theorem Outcome.state_leavesNone (o : Outcome Unit) : o.leavesNone.state = o.state := by
  cases o <;> rfl

theorem State.scope_fetch (s : State) : s.fetch.state.scope = s.scope := by
  unfold State.fetch
  split <;> rfl

theorem State.depth_fetch (s : State) : s.fetch.state.depth = s.depth := by
  unfold State.fetch
  split <;> rfl

theorem State.written_fetch (s : State) : s.fetch.state.written = s.written := by
  unfold State.fetch
  split <;> rfl

theorem State.fetched_fetch (s : State) : s.fetch.state.fetched = s.fetched + 1 := by
  unfold State.fetch
  split <;> rfl

/-- The input goes on with a token that has the property `p`. -/
def StartsWith (p : Token → Prop) (r : List (Except LexicalError Token)) : Prop :=
  ∃ t rest, r = .ok t :: rest ∧ p t

theorem StartsWith.mono {p q : Token → Prop} {r : List (Except LexicalError Token)}
    (h : StartsWith p r) (hpq : ∀ t, p t → q t) : StartsWith q r := by
  obtain ⟨t, rest, hr, ht⟩ := h
  exact ⟨t, rest, hr, hpq t ht⟩

theorem startsWith_cons {p : Token → Prop} {t : Token} (ts : List Token)
    (r : List (Except LexicalError Token)) (h : p t) :
    StartsWith p ((t :: ts).map .ok ++ r) :=
  ⟨t, ts.map .ok ++ r, rfl, h⟩

/-! ### Realizing -/

/-- Working off `goals` in the state `s` takes the tokens `ts`, writes the fragments `fs` and
leaves the scope `result`, or stops with the broken rule that `result` is. -/
def Realizes (goals : List Goal) (s : State) (ts : List Token) (fs : List Fragment)
    (result : Except StaticError Scope) : Prop :=
  match result with
  | .ok scope => ∃ s', run goals s = .ok () s' ∧ s.Took ts fs s' ∧ s'.scope = scope
  | .error e => ∃ f s', run goals s = .error f s' ∧ f.value = .static e

@[simp]
theorem orStatic_ok {α : Type} (a : α) : orStatic (.ok a) = .ok a := rfl

@[simp]
theorem orStatic_error {α : Type} (e : StaticError) :
    orStatic (.error e : Except StaticError α) = .error (.static e) := rfl

namespace Realizes

variable {g : Goal} {gs hs : List Goal} {s : State} {ts us : List Token}
  {fs fs' : List Fragment} {result : Except StaticError Scope}
  {r : List (Except LexicalError Token)}

theorem nil (s : State) : Realizes [] s [] [] (.ok s.scope) :=
  ⟨s, run_nil s, .refl s, rfl⟩

/-- Goals are realized from the left, the rest of them in the state that the first leave. -/
theorem append (ts : List Token) (fs : List Fragment) {k : Scope → Except StaticError Scope}
    (h : s.upcoming = (ts ++ us).map .ok ++ r) (h₁ : Realizes gs s ts fs result)
    (h₂ : ∀ s', s'.upcoming = us.map .ok ++ r → s'.depth = s.depth → result = .ok s'.scope →
      Realizes hs s' us fs' (k s'.scope)) :
    Realizes (gs ++ hs) s (ts ++ us) (fs ++ fs') (result >>= k) := by
  cases result with
  | error e =>
    obtain ⟨f, s', hrun, hf⟩ := h₁
    exact ⟨f, s', by simp [run_append, hrun], hf⟩
  | ok scope =>
    obtain ⟨s', hrun, htook, rfl⟩ := h₁
    have hup : s'.upcoming = us.map .ok ++ r := by
      have := htook.upcoming_eq.symm.trans h
      simpa using this
    have h₂ := h₂ s' hup htook.depth_eq rfl
    change Realizes (gs ++ hs) s (ts ++ us) (fs ++ fs') (k s'.scope)
    cases hk : k s'.scope with
    | error e =>
      rw [hk] at h₂
      obtain ⟨f, t, hrun', hf⟩ := h₂
      exact ⟨f, t, by simp [run_append, hrun, hrun'], hf⟩
    | ok scope =>
      rw [hk] at h₂
      obtain ⟨t, hrun', htook', hscope⟩ := h₂
      exact ⟨t, by simp [run_append, hrun, hrun'], htook.trans htook', hscope⟩

/-- The first goal is realized first. -/
theorem cons (ts : List Token) (fs : List Fragment) {k : Scope → Except StaticError Scope}
    (h : s.upcoming = (ts ++ us).map .ok ++ r) (h₁ : Realizes [g] s ts fs result)
    (h₂ : ∀ s', s'.upcoming = us.map .ok ++ r → s'.depth = s.depth → result = .ok s'.scope →
      Realizes gs s' us fs' (k s'.scope)) :
    Realizes (g :: gs) s (ts ++ us) (fs ++ fs') (result >>= k) :=
  append ts fs h h₁ h₂

/-- A step without a failure may be taken first. -/
theorem of_step (more : List Goal) (hstep : step g s = .ok more s)
    (h : Realizes (more ++ gs) s ts fs result) : Realizes (g :: gs) s ts fs result := by
  have hrun : run (g :: gs) s = run (more ++ gs) s := by rw [run_cons, hstep]
  unfold Realizes at h ⊢
  rwa [hrun]

/-- A nonterminal is realized by what it stands for. -/
theorem expand {n : Nonterminal} {t : Token} {goals : List Goal} (h : s.upcoming = .ok t :: r)
    (hn : n.expansion t = .ok goals) (hgoals : Realizes goals s ts fs result) :
    Realizes [.expand n] s ts fs result := by
  refine of_step goals ?_ (by simpa using hgoals)
  simp [step, State.lookahead_of_upcoming h, hn]

/-- A slot takes the next token, behind which another one has to stand. -/
theorem fill {slot : Slot} {t u : Token} {f : Option Fragment}
    (h : s.upcoming = .ok t :: .ok u :: r)
    (hfill : slot.fill s.depth s.scope t = orStatic (result.map fun scope => (scope, f))) :
    Realizes [.fill slot] s [t] f.toList result := by
  have ht := State.lookahead_of_upcoming h
  cases result with
  | error e =>
    refine ⟨⟨s.lookahead.line, .static e⟩, s, ?_, rfl⟩
    simp [run_cons, step, ht, hfill, Except.map, State.fail]
  | ok scope =>
    have hahead : s.ahead.map Located.value = .ok u :: r := (List.cons.inj h).2
    obtain ⟨⟨line, i⟩, rest, hrest, rfl, rfl⟩ := List.map_eq_cons_iff.mp hahead
    let written := ({ s with scope := scope }.write? f)
    refine ⟨{ written with
      lookahead := ⟨line, u⟩, ahead := rest, fetched := written.fetched + 1 }, ?_, ⟨?_, ?_, ?_⟩, ?_⟩
    · simp_all [run_cons, run_nil, step_fill_eq, Except.map,
        Outcome.leavesNone, State.fetch, written]
    · exact h
    · exact State.fragments_write? { s with scope := scope } f
    · exact State.depth_write? { s with scope := scope } f
    · exact State.scope_write? { s with scope := scope } f

theorem skipped {t : Fixed} {u : Token} (h : s.upcoming = .ok t.token :: .ok u :: r) :
    Realizes [.fill (.skipped t)] s [t.token] [] (.ok s.scope) :=
  fill (f := none) h (by simp [Slot.fill, Except.map])

theorem written {t : Fixed} {u : Token} (h : s.upcoming = .ok t.token :: .ok u :: r)
    (f : Fragment) : Realizes [.fill (.written t f)] s [t.token] [f] (.ok s.scope) :=
  fill (f := some f) h (by simp [Slot.fill, Except.map])

theorem write (s : State) (f : Fragment) :
    Realizes [.perform (.write f)] s [] [f] (.ok s.scope) :=
  ⟨s.write f, by simp [run_cons, run_nil, step, Action.perform, Outcome.leavesNone],
    ⟨rfl, s.fragments_write f, rfl⟩, rfl⟩

theorem closeScope (s : State) :
    Realizes [.perform .closeScope] s [] [] (.ok s.scope.close) :=
  ⟨{ s with scope := s.scope.close },
    by simp [run_cons, run_nil, step, Action.perform, Outcome.leavesNone],
    ⟨rfl, (List.append_nil _).symm, rfl⟩, rfl⟩

/-- A check leaves the scope as it is, or stops with the rule that is broken. -/
theorem check {α : Type} {a : Action} {e : Except StaticError α}
    (ha : a.perform s = match e with
      | .ok _ => .ok () s
      | .error e => s.fail (.static e)) :
    Realizes [.perform a] s [] [] (e.map fun _ => s.scope) := by
  cases e with
  | error e =>
    exact ⟨⟨s.lookahead.line, .static e⟩, s,
      by simp [run_cons, step, ha, Outcome.leavesNone, State.fail], rfl⟩
  | ok x =>
    exact ⟨s, by simp [run_cons, run_nil, step, ha, Outcome.leavesNone], .refl s, rfl⟩

end Realizes

end PlZero
