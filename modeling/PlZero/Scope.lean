import PlZero.Token

/-!
# Scopes

A program has one level of procedures: what it declares itself is at level 0, what a
procedure declares for its body is at level 1. A `Scope` lists the declarations that are
visible at some place, the newest first, so that a name means the first entry that bears it
and an inner declaration hides an outer one.

Leaving the body of a procedure (`Scope.close`) drops what was declared since the procedure
itself. The program's own main procedure stands at the beginning of every scope, so there is
always a procedure to stop at.

What changes a scope and may fail (`Scope.declaring`, `Scope.recordingSize`) leaves a scope in
either case. `Scope.declare` and `Scope.recordSize` are what comes of it where nothing fails.
-/

namespace PlZero

/-- What a name is declared to be. -/
inductive Kind
  | constant | variable | procedure
  deriving DecidableEq, Repr

/-- How a name is used. -/
inductive Use
  /-- A place to store a number. -/
  | target
  /-- A number. -/
  | operand
  /-- A procedure to call. -/
  | callee
  deriving DecidableEq, Repr

/-- Which rule about names and sizes a program breaks. -/
inductive StaticError
  | undefined (name : String)
  | duplicate (name : String)
  | notVariable (name : String)
  | isProcedure (name : String)
  | notProcedure (name : String)
  | sizeOfNonVariable
  | sizeOutOfRange (size : Int)
  | notArray (name : String)
  | arrayWithoutIndex (name : String)
  | reserved (name : String)
  | nestedTooDeep
  deriving DecidableEq, Repr

/-- A declared name. Only an array has a size. -/
structure Declaration where
  name : String
  kind : Kind
  level : Nat
  size : Option Nat
  deriving DecidableEq, Repr

/-- The procedure that is the program itself. -/
def Declaration.main : Declaration := ⟨"main", .procedure, 0, none⟩

/-- The visible declarations, the newest first. -/
structure Scope where
  newestFirst : List Declaration
  deriving DecidableEq, Repr

namespace Scope

/-- The most blocks that may be open when another one is entered: the program's own. -/
def maxDepth : Nat := 1

/-- The scope before anything has been declared. -/
def initial : Scope := ⟨[.main]⟩

/-- The declarations in the order in which they were made. -/
def toList (s : Scope) : List Declaration := s.newestFirst.reverse

/-- How many declarations are visible or hidden in the scope. -/
def size (s : Scope) : Nat := s.newestFirst.length

/-- The declaration that `name` means. -/
def lookup (s : Scope) (name : String) : Option Declaration :=
  s.newestFirst.find? fun d => d.name = name

/-- The declaration made last. -/
def newest? (s : Scope) : Option Declaration := s.newestFirst.head?

/-- Declares a name while `depth` blocks are open, that is, at level `depth - 1`. A level
has each name once. -/
def declaring (name : String) (kind : Kind) (depth : Nat) :
    EStateM StaticError Scope Declaration := do
  let s ← get
  if s.newestFirst.any fun d => d.name = name && d.level = depth - 1 then
    throw (.duplicate name)
  let d : Declaration := ⟨name, kind, depth - 1, none⟩
  set (⟨d :: s.newestFirst⟩ : Scope)
  return d

/-- The scope with a name declared. -/
def declare (s : Scope) (name : String) (kind : Kind) (depth : Nat) : Except StaticError Scope :=
  match declaring name kind depth s with
  | .ok _ s' => .ok s'
  | .error e _ => .error e

theorem get_apply (s : Scope) : (get : EStateM StaticError Scope Scope) s = .ok s s := rfl

theorem declaring_eq (s : Scope) (name : String) (kind : Kind) (depth : Nat) :
    declaring name kind depth s =
      if s.newestFirst.any fun d => d.name = name && d.level = depth - 1 then
        .error (.duplicate name) s
      else .ok ⟨name, kind, depth - 1, none⟩ ⟨⟨name, kind, depth - 1, none⟩ :: s.newestFirst⟩ := by
  cases h : s.newestFirst.any fun d => d.name = name && d.level = depth - 1 <;>
  · simp only [declaring, bind, EStateM.bind, get_apply, h]
    rfl

theorem declare_eq (s : Scope) (name : String) (kind : Kind) (depth : Nat) :
    s.declare name kind depth =
      if s.newestFirst.any fun d => d.name = name && d.level = depth - 1 then
        .error (.duplicate name)
      else .ok ⟨⟨name, kind, depth - 1, none⟩ :: s.newestFirst⟩ := by
  rw [declare, declaring_eq]
  cases s.newestFirst.any fun d => d.name = name && d.level = depth - 1 <;> rfl

/-- The declaration that `name` means, if it may be used in this way. -/
def resolve (s : Scope) (name : String) (use : Use) : Except StaticError Declaration :=
  match s.lookup name with
  | none => .error (.undefined name)
  | some d =>
    match use, d.kind with
    | .target, .variable => .ok d
    | .target, _ => .error (.notVariable name)
    | .operand, .procedure => .error (.isProcedure name)
    | .operand, _ => .ok d
    | .callee, .procedure => .ok d
    | .callee, _ => .error (.notProcedure name)

/-- The size of the array that `name` means. -/
def arraySize (s : Scope) (name : String) : Except StaticError Nat :=
  match s.lookup name with
  | none => .error (.undefined name)
  | some d =>
    match d.size with
    | none => .error (.notArray name)
    | some n => .ok n

/-- A name without an index must not mean an array. -/
def checkPlain (s : Scope) (name : String) : Except StaticError Unit :=
  match s.lookup name with
  | some ⟨_, _, _, some _⟩ => .error (.arrayWithoutIndex name)
  | _ => .ok ()

/-- Makes the newest declaration an array of the given size, which it must be a variable
for. -/
def recordingSize (size : Int) : EStateM StaticError Scope Nat := do
  match (← get).newestFirst with
  | ⟨name, .variable, level, _⟩ :: older =>
    unless 1 ≤ size ∧ size ≤ maxNumber do throw (.sizeOutOfRange size)
    set (⟨⟨name, .variable, level, some size.toNat⟩ :: older⟩ : Scope)
    return size.toNat
  | _ => throw .sizeOfNonVariable

/-- The scope with the newest declaration made an array, behind its size. -/
def recordSize (s : Scope) (size : Int) : Except StaticError (Nat × Scope) :=
  match recordingSize size s with
  | .ok n s' => .ok (n, s')
  | .error e _ => .error e

theorem recordingSize_eq (s : Scope) (size : Int) :
    recordingSize size s =
      match s.newestFirst with
      | ⟨name, .variable, level, _⟩ :: older =>
        if 1 ≤ size ∧ size ≤ maxNumber then
          .ok size.toNat ⟨⟨name, .variable, level, some size.toNat⟩ :: older⟩
        else .error (.sizeOutOfRange size) s
      | _ => .error .sizeOfNonVariable s := by
  obtain ⟨newestFirst⟩ := s
  match newestFirst with
  | [] => rfl
  | ⟨_, .constant, _, _⟩ :: _ => rfl
  | ⟨_, .procedure, _, _⟩ :: _ => rfl
  | ⟨name, .variable, level, old⟩ :: older =>
    simp only [recordingSize, bind, EStateM.bind, get_apply]
    split <;> rfl

theorem recordSize_eq (s : Scope) (size : Int) :
    s.recordSize size =
      match s.newestFirst with
      | ⟨name, .variable, level, _⟩ :: older =>
        if 1 ≤ size ∧ size ≤ maxNumber then
          .ok (size.toNat, ⟨⟨name, .variable, level, some size.toNat⟩ :: older⟩)
        else .error (.sizeOutOfRange size)
      | _ => .error .sizeOfNonVariable := by
  obtain ⟨newestFirst⟩ := s
  match newestFirst with
  | [] => rfl
  | ⟨_, .constant, _, _⟩ :: _ => rfl
  | ⟨_, .procedure, _, _⟩ :: _ => rfl
  | ⟨name, .variable, level, old⟩ :: older =>
    simp only [recordSize, recordingSize_eq]
    by_cases hrange : 1 ≤ size ∧ size ≤ maxNumber
    · rw [if_pos hrange, if_pos hrange]
    · rw [if_neg hrange, if_neg hrange]

/-- Drops what was declared since the newest procedure. -/
def close (s : Scope) : Scope :=
  ⟨s.newestFirst.dropWhile fun d => d.kind ≠ .procedure⟩

end Scope

end PlZero
