import PlZero.Grammar
import PlZero.Sink

/-!
# Single steps

The compiler works off a list of goals and keeps one token of the program before it
(`State.lookahead`). A goal either is replaced by the goals it stands for, or is filled by
that token, after which the next one is fetched, or is an action (`step`). Every failure is
blamed on the line of the token that is looked at, except that a place without a token has
its own line.

What is written goes to an `Output`, which may refuse it; then the run stops there. A sink is
an output, and so is the list of all that has been written (`Recording`), which refuses
nothing. A run that writes to a sink goes the same way as one that is recorded, as long as the
sink takes everything, so that nearly all theorems are about recorded runs.

What has been written when a failure arises stays written, so every step carries the state
that it reaches, whether it succeeds or not.
-/

namespace PlZero

/-! ### Outputs -/

/-- What fragments can be written to. -/
class Output (ω : Type) where
  /-- Takes a fragment, or refuses it and says why. -/
  put : Located Fragment → EStateM String ω Unit

/-- All fragments that have been written, each with the line of the token that was looked at. -/
abbrev Recording := Array (Located Fragment)

instance : Output Recording where
  put f out := .ok () (out.push f)

instance {σ : Type} [Sink σ] : Output σ where
  put f := Sink.writeParts f.value.parts

/-! ### The state of a run -/

/-- Where a run has got to. -/
structure State (ω : Type := Recording) where
  /-- The token that is looked at, which the goals have not taken yet. -/
  lookahead : Located Token
  /-- The items that have not been fetched. -/
  ahead : List Item
  /-- How often an item has been asked for. -/
  fetched : Nat
  scope : Scope
  /-- How many blocks are open. -/
  depth : Nat
  /-- What has been written, as the output has it. -/
  written : ω

/-- What a part of a run comes to: a value or a failure, and the state reached. -/
abbrev Outcome (α : Type) (ω : Type := Recording) := EStateM.Result (Located Failure) (State ω) α

namespace State

variable {ω : Type}

/-- The state before anything has been read. -/
def start (items : List Item) : State where
  lookahead := ⟨.first, .endOfInput⟩
  ahead := items
  fetched := 0
  scope := .initial
  depth := 0
  written := #[]

/-- The same state with another output. -/
def into {ω' : Type} (s : State ω) (out : ω') : State ω' :=
  { s with written := out }

/-- Stops at the token that is looked at. -/
def fail {α : Type} (s : State ω) (f : Failure) : Outcome α ω :=
  .error ⟨s.lookahead.line, f⟩ s

/-- Does something with the output. -/
def onOutput {α : Type} (s : State ω) (act : EStateM String ω α) : Outcome α ω :=
  match blame s.lookahead.line act s.written with
  | .ok a out => .ok a (s.into out)
  | .error f out => .error f (s.into out)

/-- Writes a fragment. -/
def emit [Output ω] (s : State ω) (f : Fragment) : Outcome Unit ω :=
  s.onOutput (Output.put ⟨s.lookahead.line, f⟩)

/-- Writes a fragment if there is one. -/
def emit? [Output ω] (s : State ω) : Option Fragment → Outcome Unit ω
  | none => .ok () s
  | some f => s.emit f

/-- Looks at the next item. Behind the last one the input stays at its end. -/
def fetch (s : State ω) : Outcome Unit ω :=
  match s.ahead with
  | [] => .ok () { s with lookahead := ⟨s.lookahead.line, .endOfInput⟩, fetched := s.fetched + 1 }
  | ⟨line, .ok t⟩ :: rest =>
    .ok () { s with lookahead := ⟨line, t⟩, ahead := rest, fetched := s.fetched + 1 }
  | ⟨line, .error e⟩ :: rest =>
    .error ⟨line, .lexical e⟩ { s with ahead := rest, fetched := s.fetched + 1 }

/-- How many tokens may still be taken, the one that is looked at included. -/
def unread (s : State ω) : Nat :=
  s.ahead.length + if s.lookahead.value = .endOfInput then 0 else 1

end State

/-! ### Steps -/

section

variable {ω : Type} [Output ω]

/-- Performs an action. -/
def Action.perform (a : Action) (s : State ω) : Outcome Unit ω :=
  match a with
  | write f => s.emit f
  | fetch => s.fetch
  | enter =>
    if s.depth > Scope.maxDepth then s.fail (.static .nestedTooDeep)
    else .ok () { s with depth := s.depth + 1 }
  | leave =>
    match s.depth with
    | 0 => s.fail (.defect .depthBelowZero)
    | depth + 1 => .ok () { s with depth }
  | closeScope => .ok () { s with scope := s.scope.close }
  | checkArray x =>
    match s.scope.arraySize x with
    | .ok _ => .ok () s
    | .error e => s.fail (.static e)
  | checkPlain x =>
    match s.scope.checkPlain x with
    | .ok _ => .ok () s
    | .error e => s.fail (.static e)
  | checkAtEnd =>
    if s.lookahead.value = .endOfInput then .ok () s
    else s.fail (.grammar (.notAtEnd s.lookahead.value))

/-- A goal that is done leaves no others. -/
def Outcome.leavesNone (o : Outcome Unit ω) : Outcome (List Goal) ω :=
  match o with
  | .ok _ s => .ok [] s
  | .error f s => .error f s

/-- Goes on behind a part of a run, unless it has failed. -/
def Outcome.andThen {α : Type} (o : Outcome Unit ω) (next : State ω → Outcome α ω) : Outcome α ω :=
  match o with
  | .ok _ s => next s
  | .error f s => .error f s

/-- Does the work of one goal, which leaves the goals that are returned. A token that fills a slot
is taken after its fragment has been written. -/
def step (g : Goal) (s : State ω) : Outcome (List Goal) ω :=
  match g with
  | .expand n =>
    match n.expansion s.lookahead.value with
    | .ok goals => .ok goals s
    | .error e => s.fail (.grammar e)
  | .fill slot =>
    match slot.fill s.depth s.scope s.lookahead.value with
    | .ok (scope, f) => Outcome.leavesNone (Outcome.andThen ({ s with scope }.emit? f) State.fetch)
    | .error e => s.fail e
  | .perform a => Outcome.leavesNone (a.perform s)

end

/-! ### Recorded runs -/

namespace State

/-- The state in which a fragment has been recorded. -/
def write (s : State) (f : Fragment) : State :=
  { s with written := s.written.push ⟨s.lookahead.line, f⟩ }

/-- The state in which a fragment has been recorded, if there is one. -/
def write? (s : State) : Option Fragment → State
  | none => s
  | some f => s.write f

@[simp]
theorem emit_eq_write (s : State) (f : Fragment) : s.emit f = .ok () (s.write f) := rfl

@[simp]
theorem emit?_eq_write? (s : State) (f : Option Fragment) : s.emit? f = .ok () (s.write? f) := by
  cases f <;> rfl

end State

/-- Recording a fragment never fails. -/
theorem perform_write (f : Fragment) (s : State) :
    (Action.write f).perform s = .ok () (s.write f) := rfl

theorem step_write (f : Fragment) (s : State) :
    step (.write f) s = .ok [] (s.write f) := rfl

/-- A token that fills a slot of a recorded run is always taken. -/
theorem step_fill_eq (slot : Slot) (s : State) :
    step (.fill slot) s =
      match slot.fill s.depth s.scope s.lookahead.value with
      | .ok (scope, f) => Outcome.leavesNone ({ s with scope }.write? f).fetch
      | .error e => s.fail e := by
  simp only [step, State.emit?_eq_write?, Outcome.andThen]

end PlZero
