import PlZero.Proofs.C.Grammar

/-!
# How C reads an expression

The operands of an expression can be put together in different ways, and its operators decide which
is meant: one binds more tightly than another, and those that bind equally tightly associate to the
left. What results is a tree (`Reading`), and the grammar tells which tokens are read as which tree
(`Reads`). The operators are those of generated expressions, with their levels in the grammar of C
(`Operator.mem_binaryOperators`), so whatever is read here is an expression of C
(`Reads.expression`).

There is only one way to read an expression (`Reads.unique`): a machine that goes through the tokens
once, and puts off an operator until one follows that does not bind more tightly, ends with the tree
that the grammar gives (`Reads.settled_run`).
-/

namespace PlZero.C

/-- An operator in front of an operand. -/
inductive Unary
  | plus | minus
  deriving DecidableEq, Repr

/-- An operator between two operands. -/
inductive Operator
  | times | dividedBy | plus | minus | below | above | equal | unequal | and
  deriving DecidableEq, Repr

def Unary.spelling : Unary → String
  | plus => "+"
  | minus => "-"

namespace Operator

def spelling : Operator → String
  | times => "*"
  | dividedBy => "/"
  | plus => "+"
  | minus => "-"
  | below => "<"
  | above => ">"
  | equal => "=="
  | unequal => "!="
  | and => "&"

/-- How loosely the operator binds. -/
def level : Operator → Nat
  | times | dividedBy => 3
  | plus | minus => 4
  | below | above => 6
  | equal | unequal => 7
  | and => 8

theorem mem_binaryOperators (op : Operator) : (op.spelling, op.level) ∈ binaryOperators := by
  cases op <;> decide

/-- Every one of them binds more loosely than an operator in front of an operand, and more tightly
than a comma. -/
theorem level_bounds (op : Operator) : 3 ≤ op.level ∧ op.level ≤ 15 := by
  cases op <;> decide

end Operator

theorem Unary.mem_unaryOperators (op : Unary) : op.spelling ∈ unaryOperators := by
  cases op <;> decide

/-- An expression as it is read. -/
inductive Reading
  | name (x : String)
  | element (x : String) (index : Reading)
  | constant (text : String)
  | unary (op : Unary) (operand : Reading)
  | binary (op : Operator) (left right : Reading)
  deriving DecidableEq, Repr

/-- The tokens are read as the tree, and no operator outside brackets binds more loosely than the
level says. -/
inductive Reads : Nat → List Token → Reading → Prop
  | name {x : String} (free : x ∉ keywords) : Reads 0 [.word x] (.name x)
  | constant (text : String) : Reads 0 [.number text] (.constant text)
  | group {ts : List Token} {r : Reading} (inner : Reads 15 ts r) :
    Reads 0 (.mark "(" :: (ts ++ [.mark ")"])) r
  | element {x : String} {ts : List Token} {r : Reading} (free : x ∉ keywords)
    (index : Reads 15 ts r) :
    Reads 0 (.word x :: .mark "[" :: (ts ++ [.mark "]"])) (.element x r)
  | unary {op : Unary} {ts : List Token} {r : Reading} (operand : Reads 1 ts r) :
    Reads 1 (.mark op.spelling :: ts) (.unary op r)
  | binary {op : Operator} {ts us : List Token} {l r : Reading} (left : Reads op.level ts l)
    (right : Reads (op.level - 1) us r) :
    Reads op.level (ts ++ .mark op.spelling :: us) (.binary op l r)
  | loosen {k k' : Nat} {ts : List Token} {r : Reading} (tight : Reads k ts r) (le : k ≤ k') :
    Reads k' ts r

/-- What is read is an expression of C. -/
theorem Reads.expression {k : Nat} {ts : List Token} {r : Reading} (h : Reads k ts r) :
    Expression k ts := by
  induction h with
  | name free => exact .word free
  | constant text => exact .number text
  | group _ ih => exact .group ih
  | element free _ ih => exact .element (.word free) ih
  | @unary op _ _ _ ih => exact .unary op.mem_unaryOperators (ih.loosen (by decide))
  | @binary op _ _ _ _ _ _ ih ih' => exact .binary op.mem_binaryOperators ih ih'
  | loosen _ le ih => exact ih.loosen le

/-! ### A machine that reads -/

/-- What waits for an operand. -/
inductive Waiting
  | unary (op : Unary)
  | binary (op : Operator) (left : Reading)
  | group
  | index (x : String)
  deriving DecidableEq, Repr

/-- Where the machine is, and what waits, the last first. -/
inductive Machine
  | awaiting (stack : List Waiting)
  /-- Behind a name, which a bracket may follow. -/
  | named (x : String) (stack : List Waiting)
  | holding (r : Reading) (stack : List Waiting)
  /-- What has been read goes on in no expression. -/
  | stuck
  deriving DecidableEq, Repr

/-- The operators that wait, as far as they bind at least as tightly as the level says, get what is
held as their operand. -/
def settle (k : Nat) : Reading → List Waiting → Reading × List Waiting
  | r, .unary op :: stack => if 1 ≤ k then settle k (.unary op r) stack else (r, .unary op :: stack)
  | r, .binary op left :: stack =>
    if op.level ≤ k then settle k (.binary op left r) stack else (r, .binary op left :: stack)
  | r, stack => (r, stack)

/-- The operator in front of an operand that is spelled so. -/
def unaryOf (text : String) : Option Unary :=
  [Unary.plus, .minus].find? (·.spelling = text)

/-- The operator between two operands that is spelled so. -/
def operatorOf (text : String) : Option Operator :=
  [Operator.times, .dividedBy, .plus, .minus, .below, .above, .equal, .unequal, .and].find?
    (·.spelling = text)

namespace Machine

/-- The operand that is held when the tighter operators have got theirs. -/
def settled (k : Nat) : Machine → Option (Reading × List Waiting)
  | awaiting _ | stuck => none
  | named x stack => some (settle k (.name x) stack)
  | holding r stack => some (settle k r stack)

/-- Behind a bracket that closes. -/
def close (bracket : String) : Option (Reading × List Waiting) → Machine
  | some (r, .group :: stack) => if bracket = ")" then holding r stack else stuck
  | some (r, .index x :: stack) => if bracket = "]" then holding (.element x r) stack else stuck
  | _ => stuck

/-- Behind an operator between two operands. -/
def operate (op : Operator) : Option (Reading × List Waiting) → Machine
  | some (r, stack) => awaiting (.binary op r :: stack)
  | none => stuck

/-- Behind a token that follows an operand. -/
def follow (s : Machine) (m : String) : Machine :=
  match operatorOf m with
  | some op => operate op (s.settled op.level)
  | none => close m (s.settled 15)

/-- Behind a token. -/
def step : Machine → Token → Machine
  | awaiting stack, .word x => named x stack
  | awaiting stack, .number text => holding (.constant text) stack
  | awaiting stack, .mark m =>
    if m = "(" then awaiting (.group :: stack)
    else
      match unaryOf m with
      | some op => awaiting (.unary op :: stack)
      | none => stuck
  | named x stack, .mark m =>
    if m = "[" then awaiting (.index x :: stack) else follow (named x stack) m
  | holding r stack, .mark m => follow (holding r stack) m
  | _, _ => stuck

/-- Behind the tokens. -/
def run : Machine → List Token → Machine := List.foldl step

theorem run_cons (s : Machine) (t : Token) (ts : List Token) :
    s.run (t :: ts) = (s.step t).run ts := rfl

theorem run_append (s : Machine) (ts us : List Token) : s.run (ts ++ us) = (s.run ts).run us :=
  List.foldl_append ..

end Machine

/-! ### What the machine ends with -/

/-- Nothing that waits gets an operand before it has been read up to the level. -/
def Blocked (k : Nat) : List Waiting → Prop
  -- The operand of such an operator has no other operators outside brackets.
  | .unary _ :: _ => k ≤ 1
  | .binary op _ :: _ => k < op.level
  | _ => True

theorem Blocked.mono {k k' : Nat} {stack : List Waiting} (h : Blocked k' stack) (hk : k ≤ k') :
    Blocked k stack := by
  match stack with
  | [] | .group :: _ | .index _ :: _ => trivial
  | .unary _ :: _ => exact Nat.le_trans hk h
  | .binary _ _ :: _ => exact Nat.lt_of_le_of_lt hk h

theorem settle_of_blocked {k : Nat} {stack : List Waiting} (h : Blocked k stack) (hk : 2 ≤ k)
    (r : Reading) : settle k r stack = (r, stack) := by
  match stack with
  | [] | .group :: _ | .index _ :: _ => rfl
  | .unary _ :: _ => exact absurd (Nat.le_trans hk h) (by decide)
  | .binary op _ :: _ => exact if_neg (Nat.not_le_of_lt h)

/-- To settle up to a level and then up to a looser one is to settle up to the looser one. -/
theorem settle_settle {k k' : Nat} (hk : k ≤ k') (r : Reading) (stack : List Waiting) :
    settle k' (settle k r stack).1 (settle k r stack).2 = settle k' r stack := by
  induction stack generalizing r with
  | nil => rfl
  | cons w stack ih =>
    cases w with
    | group | index => rfl
    | unary op =>
      simp only [settle]
      split
      · rw [ih, if_pos (by omega)]
      · rfl
    | binary op left =>
      simp only [settle]
      split
      · rw [ih, if_pos (by omega)]
      · rfl

namespace Machine

theorem settled_of_le {k k' : Nat} (hk : k ≤ k') (s : Machine) :
    s.settled k' = (s.settled k).map fun held => settle k' held.1 held.2 := by
  cases s with
  | awaiting | stuck => rfl
  | named x stack => exact congrArg some (settle_settle hk _ stack).symm
  | holding r stack => exact congrArg some (settle_settle hk r stack).symm

theorem step_open (stack : List Waiting) :
    (awaiting stack).step (.mark "(") = awaiting (.group :: stack) := rfl

theorem step_openIndex (x : String) (stack : List Waiting) :
    ((awaiting stack).step (.word x)).step (.mark "[") = awaiting (.index x :: stack) := rfl

theorem step_unary (op : Unary) (stack : List Waiting) :
    (awaiting stack).step (.mark op.spelling) = awaiting (.unary op :: stack) := by
  cases op <;> rfl

theorem operatorOf_spelling (op : Operator) : operatorOf op.spelling = some op := by
  cases op <;> rfl

/-- Behind an operand, an operator gets what binds at least as tightly. -/
theorem step_operator {s : Machine} {op : Operator} {r : Reading} {stack : List Waiting}
    (h : s.settled op.level = some (r, stack)) :
    s.step (.mark op.spelling) = awaiting (.binary op r :: stack) := by
  have hfollow : s.follow op.spelling = awaiting (.binary op r :: stack) := by
    rw [follow, operatorOf_spelling]
    exact congrArg (operate op) h
  have hbracket : op.spelling ≠ "[" := by cases op <;> decide
  cases s with
  | awaiting | stuck => cases h
  | named x stack => exact (if_neg hbracket).trans hfollow
  | holding r stack => exact hfollow

theorem step_close {s : Machine} {r : Reading} {stack : List Waiting}
    (h : s.settled 15 = some (r, .group :: stack)) : s.step (.mark ")") = holding r stack := by
  cases s with
  | awaiting | stuck => cases h
  | named | holding => exact congrArg (close ")") h

theorem step_closeIndex {s : Machine} {x : String} {r : Reading} {stack : List Waiting}
    (h : s.settled 15 = some (r, .index x :: stack)) :
    s.step (.mark "]") = holding (.element x r) stack := by
  cases s with
  | awaiting | stuck => cases h
  | named | holding => exact congrArg (close "]") h

end Machine

open Machine

/-- **The machine ends with the tree that is read**, up to operators that still wait: these are
settled as if the tree was held. -/
theorem Reads.settled_run {k : Nat} {ts : List Token} {r : Reading} (h : Reads k ts r) :
    ∀ stack : List Waiting, Blocked k stack →
      ((awaiting stack).run ts).settled k = some (settle k r stack) := by
  -- By induction on how the tokens are read, for everything that may wait in front of them.
  induction h with
  | name | constant => exact fun _ _ => rfl
  | @group ts r _ ih =>
    intro stack _
    have hinner := ih (.group :: stack) trivial
    rw [run_cons, step_open, run_append, run_cons, step_close hinner]
    rfl
  | @element x ts r _ _ ih =>
    intro stack _
    have hindex := ih (.index x :: stack) trivial
    rw [run_cons, run_cons, step_openIndex, run_append, run_cons, step_closeIndex hindex]
    rfl
  | @unary op ts r _ ih =>
    intro stack _
    rw [run_cons, step_unary, ih (.unary op :: stack) (Nat.le_refl 1)]
    rfl
  | @binary op ts us l r _ _ ih ih' =>
    intro stack hstack
    obtain ⟨hleast, -⟩ := op.level_bounds
    -- The operator settles its left operand and waits for the right one, in which no operator is as
    -- loose, so that it gets all of it in the end.
    have hleft := ih stack hstack
    rw [settle_of_blocked hstack (by omega)] at hleft
    have hblocked : Blocked (op.level - 1) (.binary op l :: stack) := by
      change op.level - 1 < op.level
      omega
    have hright := ih' (.binary op l :: stack) hblocked
    rw [run_append, run_cons, step_operator hleft, settled_of_le (Nat.sub_le op.level 1), hright,
      Option.map_some, settle_settle (Nat.sub_le op.level 1)]
    exact congrArg some (if_pos (Nat.le_refl op.level))
  | loosen _ le ih =>
    intro stack hstack
    rw [settled_of_le le, ih stack (hstack.mono le), Option.map_some, settle_settle le]

/-- **There is one way to read an expression.** -/
theorem Reads.unique {k k' : Nat} {ts : List Token} {r r' : Reading} (h : Reads k ts r)
    (h' : Reads k' ts r') : r = r' := by
  have hrun := (h.loosen (Nat.le_max_left k k')).settled_run [] trivial
  have hrun' := (h'.loosen (Nat.le_max_right k k')).settled_run [] trivial
  rw [hrun] at hrun'
  exact congrArg Prod.fst (Option.some.inj hrun')

/-- A sign belongs to the first factor. -/
example : ((awaiting []).run (tokens "-a*b/c+d")).settled 15 =
    some (.binary .plus (.binary .dividedBy (.binary .times (.unary .minus (.name "a")) (.name "b"))
      (.name "c")) (.name "d"), []) := by decide +kernel

end PlZero.C
