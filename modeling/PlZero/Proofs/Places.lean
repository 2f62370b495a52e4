import PlZero.Grammar

/-!
# Places in a run

A `Place` says how far the program that is written has got: among the declarations of a block,
behind the name of a variable, in a body with so many blocks open, and so on. Every goal leads from
a place where it may be worked off to another one (`Goal.lead`), and so does a list of goals
(`leads`).

What a nonterminal stands for leads to the same place as the nonterminal itself (`leads_expansion`).
So what the goals promise at the beginning of a run they promise at every step of it.

A procedure inside a procedure is declared before its block is refused. At its place nothing is
known (`Place.nested`), and behind the refused beginning of the block there is no place at all
(`Place.unreachable`).
-/

namespace PlZero

/-- How far the program that is written has got. -/
inductive Place
  /-- Nothing is written. -/
  | blank
  /-- The preamble is written. -/
  | ready
  /-- Among the declarations of a block. -/
  | declarations (b : Block)
  /-- Behind the name of a variable that is declared. -/
  | unbounded (b : Block)
  /-- Behind the name of a variable and its bound, if it has one. -/
  | bounded (b : Block)
  /-- Behind the head of a procedure. -/
  | headed
  /-- In the body of a block, with `open_` compound statements open. -/
  | body (b : Block) (open_ : Nat)
  /-- Behind the body of a block. -/
  | closed (b : Block)
  /-- Behind the block of a procedure, whose declarations are not yet forgotten. -/
  | left
  /-- Behind the block of the program. -/
  | finished
  /-- Behind the name of a procedure inside a procedure. -/
  | nested
  | unreachable
  deriving DecidableEq, Repr

open Place

/-- Where a fragment leads. -/
def Fragment.lead : Fragment → Place → Option Place
  | preamble, .blank => some ready
  | trailer, .finished => some finished
  | variableEnd, .unbounded b | variableEnd, .bounded b => some (declarations b)
  | variablesEnd, .declarations b => some (declarations b)
  | mainHead, .declarations .program => some (body .program 0)
  | bodyEnd .program, .body .program 0 => some (closed .program)
  | bodyEnd .procedure, .body .procedure 0 => some (closed .procedure)
  | blockHead, .body b n => some (body b (n + 1))
  | blockEnd, .body b (n + 1) => some (body b n)
  | blockNext, .body b n | assign, .body b n | oddHead, .body b n | oddEnd, .body b n
  | ifHead, .body b n | whileHead, .body b n | conditionEnd, .body b n
  | mark .plus, .body b n | mark .minus, .body b n | mark .star, .body b n
  | mark .slash, .body b n | mark .leftParen, .body b n | mark .rightParen, .body b n
  | mark .leftBracket, .body b n | mark .rightBracket, .body b n => some (body b n)
  | _, _ => none

/-- Where the token of a slot leads. -/
def Slot.lead : Slot → Place → Option Place
  | skipped _, p => some p
  | written _ f, p => f.lead p
  | declared .constant, .declarations b => some (declarations b)
  | declared .variable, .declarations b => some (unbounded b)
  | declared .procedure, .declarations .program => some headed
  | declared .procedure, .declarations .procedure => some nested
  | constantValue, .declarations b => some (declarations b)
  | arrayBound, .unbounded b => some (bounded b)
  | target, .body b n | operand, .body b n | relation, .body b n | callee, .body b n
  | printed _, .body b n | stored _, .body b n | printedText, .body b n => some (body b n)
  | _, _ => none

/-- Where an action leads. -/
def Action.lead : Action → Place → Option Place
  | write f, p => f.lead p
  | fetch, .ready => some ready
  | enter, .ready => some (declarations .program)
  | enter, .headed => some (declarations .procedure)
  | enter, .nested => some unreachable
  | leave, .closed .program => some finished
  | leave, .closed .procedure => some left
  | closeScope, .left => some (declarations .program)
  | checkArray _, .body b n | checkPlain _, .body b n => some (body b n)
  | checkAtEnd, .finished => some finished
  | _, _ => none

/-- Where a nonterminal leads. -/
def Nonterminal.lead : Nonterminal → Place → Option Place
  | block .program, .ready => some finished
  | block .procedure, .headed => some left
  | block .procedure, .nested => some unreachable
  | constantList, .declarations b | moreConstants, .declarations b
  | variableList, .declarations b | moreVariables, .declarations b
  | procedureList, .declarations b => some (declarations b)
  | variableSize, .unbounded b => some (bounded b)
  | statement, .declarations .procedure => some (body .procedure 0)
  | moreStatements, .body b (n + 1) => some (body b n)
  | statement, .body b n | optionalInto, .body b n | condition, .body b n
  | expression, .body b n | moreTerms, .body b n | term, .body b n | moreFactors, .body b n
  | factor, .body b n | index _, .body b n => some (body b n)
  | _, _ => none

/-- Where a goal leads, if it may be worked off at the place. At an unreachable place anything may
be done, and the only way to leave it is to close the scope. -/
def Goal.lead (g : Goal) (p : Place) : Option Place :=
  match p, g with
  | .unreachable, .perform .closeScope => some (declarations .procedure)
  | .unreachable, _ => some unreachable
  | p, .expand n => n.lead p
  | p, .fill s => s.lead p
  | p, .perform a => a.lead p

/-- Where a goal leads at a place that can be reached. -/
def Goal.leadOn : Goal → Place → Option Place
  | .expand n => n.lead
  | .fill s => s.lead
  | .perform a => a.lead

theorem Goal.lead_of_ne {p : Place} (hp : p ≠ .unreachable) (g : Goal) : g.lead p = g.leadOn p := by
  cases p with
  | unreachable => exact absurd rfl hp
  | _ => cases g <;> rfl

/-- Where a list of goals leads. -/
def leads : List Goal → Place → Option Place
  | [], p => some p
  | g :: gs, p => g.lead p >>= leads gs

theorem leads_append (gs hs : List Goal) (p : Place) :
    leads (gs ++ hs) p = leads gs p >>= leads hs := by
  induction gs generalizing p with
  | nil => rfl
  | cons g gs ih =>
    simp only [List.cons_append, leads]
    cases g.lead p with
    | none => rfl
    | some q => exact ih q

/-- The place is the same, or another one as which it may be seen: a variable need not have a bound,
and the body of a procedure begins among its declarations. -/
inductive Place.SeenAs : Place → Place → Prop
  | refl (p : Place) : SeenAs p p
  | bounded (b : Block) : SeenAs (.unbounded b) (.bounded b)
  | body : SeenAs (.declarations .procedure) (.body .procedure 0)

/-- Parts of a statement begin and end in a body, between the same braces. -/
def Nonterminal.IsPart : Nonterminal → Prop
  | optionalInto | condition | expression | moreTerms | term | moreFactors | factor | index _ =>
    True
  | _ => False

theorem Nonterminal.lead_of_isPart {n : Nonterminal} (h : n.IsPart) {p q : Place}
    (hq : n.lead p = some q) : ∃ b k, p = .body b k ∧ q = .body b k := by
  cases n with
  | block | constantList | moreConstants | variableList | variableSize | moreVariables
  | procedureList | statement | moreStatements => exact h.elim
  | _ =>
    cases p with
    | body b k => exact ⟨b, k, rfl, (Option.some.inj hq).symm⟩
    | _ => cases hq

theorem leads_part {n : Nonterminal} (hn : n.IsPart) {t : Token} {goals : List Goal}
    (h : n.expansion t = .ok goals) (b : Block) (k : Nat) :
    leads goals (.body b k) = some (.body b k) := by
  cases n with
  | block | constantList | moreConstants | variableList | variableSize | moreVariables
  | procedureList | statement | moreStatements => exact hn.elim
  | term =>
    cases h
    rfl
  | _ =>
    simp only [Nonterminal.expansion] at h
    split at h <;> cases h <;> rfl

/-- A statement leads back to the place in the body where it begins. -/
theorem leads_statementGoals (t : Token) (b : Block) (k : Nat) :
    leads (Nonterminal.statementGoals t) (.body b k) = some (.body b k) := by
  unfold Nonterminal.statementGoals
  split <;> rfl

/-- **What a nonterminal stands for leads where the nonterminal leads.** -/
theorem leads_expansion {n : Nonterminal} {t : Token} {goals : List Goal} {p q : Place}
    (h : n.expansion t = .ok goals) (hq : n.lead p = some q) :
    ∃ p', p.SeenAs p' ∧ leads goals p' = some q := by
  cases n with
  | block b =>
    cases h
    cases b <;> cases p <;> first | exact ⟨_, .refl _, hq⟩ | cases hq
  | statement =>
    cases h
    cases p with
    | declarations b =>
      cases b with
      | program => cases hq
      | procedure =>
        obtain rfl := Option.some.inj hq
        exact ⟨_, .body, leads_statementGoals t _ _⟩
    | body b k =>
      obtain rfl := Option.some.inj hq
      exact ⟨_, .refl _, leads_statementGoals t b k⟩
    | _ => cases hq
  | moreStatements =>
    cases p with
    | body b k =>
      cases k with
      | zero => cases hq
      | succ k =>
        obtain rfl := Option.some.inj hq
        simp only [Nonterminal.expansion] at h
        split at h <;> cases h <;> exact ⟨_, .refl _, rfl⟩
    | _ => cases hq
  | variableSize =>
    cases p with
    | unbounded b =>
      obtain rfl := Option.some.inj hq
      simp only [Nonterminal.expansion] at h
      split at h <;> cases h
      · exact ⟨_, .refl _, rfl⟩
      · exact ⟨_, .bounded b, rfl⟩
    | _ => cases hq
  | constantList | moreConstants | variableList | moreVariables | procedureList =>
    cases p with
    | declarations b =>
      obtain rfl := Option.some.inj hq
      simp only [Nonterminal.expansion] at h
      split at h <;> cases h <;> exact ⟨_, .refl _, by cases b <;> rfl⟩
    | _ => cases hq
  | _ =>
    obtain ⟨b, k, rfl, rfl⟩ := Nonterminal.lead_of_isPart (by trivial) hq
    exact ⟨_, .refl _, leads_part (by trivial) h b k⟩

/-- The goals of a program lead from the blank page to its end. -/
theorem leads_programGoals : leads programGoals .blank = some .finished := rfl

end PlZero
