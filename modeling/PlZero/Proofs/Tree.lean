import PlZero.Grammar

/-!
# Derivation trees

One type of trees for each part of the grammar that `PlZero.Grammar` states. The leaves of a
tree, from left to right, are its tokens (`Program.tokens`), so a sequence of tokens is a
sentence of the grammar when it is that of some tree.

A tree knows nothing of how a program is read. What the compiler does while it reads, a tree
gives in two lists of its own: the fragments of C that the tree stands for
(`Program.fragments`), and what its declarations and names ask of the scope, in the order of
the text (`Program.operations`).

The repetitions of the grammar whose parts can contain them again (`Terms`, `Factors`,
`Statements`, `Procedures`) are types of their own, so that every function on trees is a
recursion on their constructors.
-/

namespace PlZero.Tree

/-! ### Leaves -/

/-- A number as it is written: its value, and its digits. -/
structure Numeral where
  value : Int
  digits : String
  deriving DecidableEq, Repr

/-- The signs that stand before a term and between terms. -/
inductive Sign
  | plus | minus
  deriving DecidableEq, Repr

/-- The operators between factors. -/
inductive Scaling
  | times | dividedBy
  deriving DecidableEq, Repr

/-- The relations of a condition. -/
inductive Relation
  | equal | unequal | below | above
  deriving DecidableEq, Repr

def Numeral.token (n : Numeral) : Token := .number n.value n.digits

def Sign.mark : Sign → Mark
  | plus => .plus
  | minus => .minus

def Scaling.mark : Scaling → Mark
  | times => .star
  | dividedBy => .slash

def Relation.mark : Relation → Mark
  | equal => .equals
  | unequal => .differs
  | below => .below
  | above => .above

/-- The C operator of a relation. -/
def Relation.fragment : Relation → Fragment
  | equal => .equal
  | unequal => .unequal
  | below => .mark .below
  | above => .mark .above

/-! ### Trees -/

mutual

/-- `[ sign ] term { sign term }` -/
inductive Expression
  | mk (sign : Option Sign) (first : Term) (more : Terms)

/-- `{ sign term }` -/
inductive Terms
  | done
  | next (sign : Sign) (term : Term) (more : Terms)

/-- `factor { scaling factor }` -/
inductive Term
  | mk (first : Factor) (more : Factors)

/-- `{ scaling factor }` -/
inductive Factors
  | done
  | next (scaling : Scaling) (factor : Factor) (more : Factors)

/-- `name [ "[" expression "]" ] | number | "(" expression ")"` -/
inductive Factor
  | name (x : String)
  | element (x : String) (index : Expression)
  | number (n : Numeral)
  | group (inner : Expression)

end

/-- `"odd" expression | expression relation expression` -/
inductive Condition
  | odd (e : Expression)
  | compare (left : Expression) (relation : Relation) (right : Expression)

mutual

/-- A statement, which may be empty. -/
inductive Statement
  | empty
  | assign (x : String) (value : Expression)
  | assignElement (x : String) (index value : Expression)
  | call (p : String)
  | compound (first : Statement) (more : Statements)
  | ifThen (c : Condition) (body : Statement)
  | whileDo (c : Condition) (body : Statement)
  | printName (form : Form) (x : String)
  | printNumber (form : Form) (n : Numeral)
  | read (form : Form) (hasInto : Bool) (x : String)
  | printArray (x : String)
  | printText (content : String)

/-- `{ ";" statement } "end"` -/
inductive Statements
  | done
  | next (s : Statement) (more : Statements)

end

/-- `name "=" number` -/
structure Constant where
  name : String
  value : Numeral

/-- `name [ "size" number ]` -/
structure Variable where
  name : String
  size : Option Numeral

mutual

/-- A block. A list of constants or of variables that is empty is not written at all. -/
inductive Block
  | mk (constants : List Constant) (vars : List Variable) (procedures : Procedures)
      (body : Statement)

/-- `{ "procedure" name ";" block ";" }` -/
inductive Procedures
  | done
  | next (name : String) (block : Block) (more : Procedures)

end

/-- `block "."` -/
structure Program where
  block : Block

/-! ### Tokens -/

/-- The token of a keyword. -/
abbrev word (k : Keyword) : Token := .keyword k

/-- The tokens of a sign that may be missing. -/
def signTokens : Option Sign → List Token
  | none => []
  | some sign => [.mark sign.mark]

mutual

def Expression.tokens : Expression → List Token
  | .mk sign first more => signTokens sign ++ (first.tokens ++ more.tokens)

def Terms.tokens : Terms → List Token
  | .done => []
  | .next sign term more => .mark sign.mark :: (term.tokens ++ more.tokens)

def Term.tokens : Term → List Token
  | .mk first more => first.tokens ++ more.tokens

def Factors.tokens : Factors → List Token
  | .done => []
  | .next scaling factor more => .mark scaling.mark :: (factor.tokens ++ more.tokens)

def Factor.tokens : Factor → List Token
  | .name x => [.name x]
  | .element x index =>
    .name x :: .mark .leftBracket :: (index.tokens ++ [.mark .rightBracket])
  | .number n => [n.token]
  | .group inner => .mark .leftParen :: (inner.tokens ++ [.mark .rightParen])

end

def Condition.tokens : Condition → List Token
  | .odd e => word .odd :: e.tokens
  | .compare left relation right => left.tokens ++ .mark relation.mark :: right.tokens

/-- The keyword of the statement that reads a number in the given form. -/
def readKeyword : Form → Keyword
  | .decimal => .readInt
  | .character => .readChar

/-- The tokens of an `into` that may be missing. -/
def intoTokens : Bool → List Token
  | true => [word .into]
  | false => []

mutual

def Statement.tokens : Statement → List Token
  | .empty => []
  | .assign x value => .name x :: .mark .becomes :: value.tokens
  | .assignElement x index value =>
    .name x :: .mark .leftBracket ::
      (index.tokens ++ .mark .rightBracket :: .mark .becomes :: value.tokens)
  | .call p => [word .call, .name p]
  | .compound first more => word .begin_ :: (first.tokens ++ more.tokens)
  | .ifThen c body => word .if_ :: (c.tokens ++ word .then_ :: body.tokens)
  | .whileDo c body => word .while_ :: (c.tokens ++ word .do_ :: body.tokens)
  | .printName form x => [word form.printKeyword, .name x]
  | .printNumber form n => [word form.printKeyword, n.token]
  | .read form hasInto x => word (readKeyword form) :: (intoTokens hasInto ++ [.name x])
  | .printArray x => [word .writeStr, .name x]
  | .printText content => [word .writeStr, .text content]

def Statements.tokens : Statements → List Token
  | .done => [word .end_]
  | .next s more => .mark .semicolon :: (s.tokens ++ more.tokens)

end

def Constant.tokens (c : Constant) : List Token :=
  [.name c.name, .mark .equals, c.value.token]

/-- The tokens of a size that may be missing. -/
def sizeTokens : Option Numeral → List Token
  | none => []
  | some n => [word .size, n.token]

def Variable.tokens (v : Variable) : List Token :=
  .name v.name :: sizeTokens v.size

/-- What follows the first member of a list of declarations: the others, each behind a comma,
and the semicolon that ends the list. -/
def listTail {α : Type} (tokens : α → List Token) (more : List α) : List Token :=
  more.flatMap (fun a => .mark .comma :: tokens a) ++ [.mark .semicolon]

/-- The tokens of a list of declarations behind its keyword. -/
def listTokens {α : Type} (k : Keyword) (tokens : α → List Token) : List α → List Token
  | [] => []
  | first :: more => word k :: (tokens first ++ listTail tokens more)

/-- Every token of a member of a list of declarations is one of the list. -/
theorem mem_listTokens {α : Type} {k : Keyword} {tokens : α → List Token} {as : List α} {a : α}
    (ha : a ∈ as) {u : Token} (hu : u ∈ tokens a) : u ∈ listTokens k tokens as := by
  cases as with
  | nil => cases ha
  | cons first more =>
    simp only [listTokens, listTail, List.mem_cons, List.mem_append, List.mem_flatMap]
    rcases List.mem_cons.mp ha with rfl | ha
    · exact .inr (.inl hu)
    · exact .inr (.inr (.inl ⟨a, ha, .inr hu⟩))

mutual

def Block.tokens : Block → List Token
  | .mk constants vars procedures body =>
    listTokens .const Constant.tokens constants ++
      (listTokens .var Variable.tokens vars ++ (procedures.tokens ++ body.tokens))

def Procedures.tokens : Procedures → List Token
  | .done => []
  | .next name block more =>
    word .procedure :: .name name :: .mark .semicolon ::
      (block.tokens ++ .mark .semicolon :: more.tokens)

end

def Program.tokens (p : Program) : List Token :=
  p.block.tokens ++ [.mark .dot]

/-! ### Fragments -/

/-- What the names mean at some place. -/
abbrev Names := String → Option Declaration

/-- The number of elements of the array that `x` means. -/
def Names.size (names : Names) (x : String) : Nat :=
  ((names x).bind Declaration.size).getD 0

/-- The fragments of a sign that may be missing. -/
def signFragments : Option Sign → List Fragment
  | none => []
  | some sign => [.mark sign.mark]

mutual

def Expression.fragments : Expression → List Fragment
  | .mk sign first more => signFragments sign ++ (first.fragments ++ more.fragments)

def Terms.fragments : Terms → List Fragment
  | .done => []
  | .next sign term more => .mark sign.mark :: (term.fragments ++ more.fragments)

def Term.fragments : Term → List Fragment
  | .mk first more => first.fragments ++ more.fragments

def Factors.fragments : Factors → List Fragment
  | .done => []
  | .next scaling factor more => .mark scaling.mark :: (factor.fragments ++ more.fragments)

def Factor.fragments : Factor → List Fragment
  | .name x => [.name x]
  | .element x index =>
    .name x :: .mark .leftBracket :: (index.fragments ++ [.mark .rightBracket])
  | .number n => [.number n.value]
  | .group inner => .mark .leftParen :: (inner.fragments ++ [.mark .rightParen])

end

def Condition.fragments : Condition → List Fragment
  | .odd e => .oddHead :: (e.fragments ++ [.oddEnd])
  | .compare left relation right => left.fragments ++ relation.fragment :: right.fragments

mutual

def Statement.fragments (names : Names) : Statement → List Fragment
  | .empty => []
  | .assign x value => .name x :: .assign :: value.fragments
  | .assignElement x index value =>
    .name x :: .mark .leftBracket ::
      (index.fragments ++ .mark .rightBracket :: .assign :: value.fragments)
  | .call p => [.call p]
  | .compound first more => .blockHead :: (first.fragments names ++ more.fragments names)
  | .ifThen c body => .ifHead :: (c.fragments ++ .conditionEnd :: body.fragments names)
  | .whileDo c body => .whileHead :: (c.fragments ++ .conditionEnd :: body.fragments names)
  | .printName form x => [.print form (.name x)]
  | .printNumber form n => [.print form (.number n.value)]
  | .read form _ x => [.read form x]
  | .printArray x => [.printArray x (names.size x)]
  | .printText content => [.printText content]

def Statements.fragments (names : Names) : Statements → List Fragment
  | .done => [.blockEnd]
  | .next s more => .blockNext :: (s.fragments names ++ more.fragments names)

end

def Constant.fragments (c : Constant) : List Fragment :=
  [.constantHead c.name, .constantValue c.value.value]

/-- The bound of an array, for a variable that has a size. -/
def boundFragments : Option Numeral → List Fragment
  | none => []
  | some n => [.arrayBound n.value.toNat]

def Variable.fragments (v : Variable) : List Fragment :=
  .variableHead v.name :: (boundFragments v.size ++ [.variableEnd])

/-- The declarations of variables, behind which a blank line stands. -/
def variablesFragments : List Variable → List Fragment
  | [] => []
  | first :: more =>
    first.fragments ++ (more.flatMap Variable.fragments ++ [.variablesEnd])

def Constant.declaration (level : Nat) (c : Constant) : Declaration :=
  ⟨c.name, .constant, level, none⟩

def Variable.declaration (level : Nat) (v : Variable) : Declaration :=
  ⟨v.name, .variable, level, v.size.map (·.value.toNat)⟩

/-- The declaration of a procedure. -/
def procedureDeclaration (level : Nat) (name : String) : Declaration :=
  ⟨name, .procedure, level, none⟩

/-- The constants and variables of a block, in the order of the text. -/
def ownDeclarations (level : Nat) (constants : List Constant) (vars : List Variable) :
    List Declaration :=
  constants.map (Constant.declaration level) ++ vars.map (Variable.declaration level)

/-- The procedures of a block, in the order of the text. -/
def Procedures.declarations (level : Nat) : Procedures → List Declaration
  | .done => []
  | .next name _ more => procedureDeclaration level name :: more.declarations level

/-- The scope behind further declarations. -/
def extend (scope : Scope) (declarations : List Declaration) : Scope :=
  ⟨declarations.reverse ++ scope.newestFirst⟩

/-- The main function begins behind the procedures. -/
def bodyHead : PlZero.Block → List Fragment
  | .program => [.mainHead]
  | .procedure => []

mutual

/-- The fragments of a block at a level, where the names mean what `scope` says. -/
def Block.fragments (kind : PlZero.Block) (level : Nat) (scope : Scope) : Block → List Fragment
  | .mk constants vars procedures body =>
    let own := extend scope (ownDeclarations level constants vars)
    let all := extend own (procedures.declarations level)
    constants.flatMap Constant.fragments ++
      (variablesFragments vars ++
        (procedures.fragments level own ++
          (bodyHead kind ++ (body.fragments all.lookup ++ [.bodyEnd kind]))))

/-- The fragments of procedures; the body of each may call it, and those in front of it. -/
def Procedures.fragments (level : Nat) (scope : Scope) : Procedures → List Fragment
  | .done => []
  | .next name block more =>
    let named := extend scope [procedureDeclaration level name]
    .procedureHead name ::
      (block.fragments .procedure (level + 1) named ++ more.fragments level named)

end

/-- The C code of a program, between the frame that every program has. -/
def Program.fragments (p : Program) : List Fragment :=
  p.block.fragments .program 0 .initial

/-! ### What is asked of the scope -/

/-- In which shape a name is used. -/
inductive Shape
  /-- Without an index, so that it must not be an array. -/
  | plain
  /-- With an index, or as a text to print, so that it must be an array. -/
  | array
  /-- As a procedure to call. -/
  | called
  deriving DecidableEq, Repr

/-- A place where a name is used. -/
structure Occurrence where
  name : String
  use : Use
  shape : Shape
  deriving DecidableEq, Repr

mutual

def Expression.uses : Expression → List Occurrence
  | .mk _ first more => first.uses ++ more.uses

def Terms.uses : Terms → List Occurrence
  | .done => []
  | .next _ term more => term.uses ++ more.uses

def Term.uses : Term → List Occurrence
  | .mk first more => first.uses ++ more.uses

def Factors.uses : Factors → List Occurrence
  | .done => []
  | .next _ factor more => factor.uses ++ more.uses

def Factor.uses : Factor → List Occurrence
  | .name x => [⟨x, .operand, .plain⟩]
  | .element x index => ⟨x, .operand, .array⟩ :: index.uses
  | .number _ => []
  | .group inner => inner.uses

end

def Condition.uses : Condition → List Occurrence
  | .odd e => e.uses
  | .compare left _ right => left.uses ++ right.uses

mutual

/-- The names that a statement uses, in the order of the text. -/
def Statement.uses : Statement → List Occurrence
  | .empty => []
  | .assign x value => ⟨x, .target, .plain⟩ :: value.uses
  | .assignElement x index value => ⟨x, .target, .array⟩ :: (index.uses ++ value.uses)
  | .call p => [⟨p, .callee, .called⟩]
  | .compound first more => first.uses ++ more.uses
  | .ifThen c body => c.uses ++ body.uses
  | .whileDo c body => c.uses ++ body.uses
  | .printName _ x => [⟨x, .operand, .plain⟩]
  | .printNumber _ _ => []
  | .read _ _ x => [⟨x, .target, .plain⟩]
  | .printArray x => [⟨x, .target, .array⟩]
  | .printText _ => []

def Statements.uses : Statements → List Occurrence
  | .done => []
  | .next s more => s.uses ++ more.uses

end

/-- What a part of a program asks of the scope. -/
inductive Operation
  | declare (name : String) (kind : Kind) (depth : Nat)
  | size (n : Int)
  /-- A block begins while `depth` others are open. -/
  | enter (depth : Nat)
  | use (o : Occurrence)
  | close
  deriving DecidableEq, Repr

def Constant.operations (depth : Nat) (c : Constant) : List Operation :=
  [.declare c.name .constant depth]

def Variable.operations (depth : Nat) (v : Variable) : List Operation :=
  .declare v.name .variable depth :: (v.size.map fun n => Operation.size n.value).toList

mutual

/-- What a block asks of the scope while `depth` blocks are open. -/
def Block.operations (depth : Nat) : Block → List Operation
  | .mk constants vars procedures body =>
    .enter depth ::
      (constants.flatMap (Constant.operations (depth + 1)) ++
        (vars.flatMap (Variable.operations (depth + 1)) ++
          (procedures.operations (depth + 1) ++ body.uses.map .use)))

def Procedures.operations (depth : Nat) : Procedures → List Operation
  | .done => []
  | .next name block more =>
    .declare name .procedure depth ::
      (block.operations depth ++ .close :: more.operations depth)

end

/-- What a program asks of the scope, in the order of the text. -/
def Program.operations (p : Program) : List Operation :=
  p.block.operations 0

/-- The declaration that `x` means has the shape. -/
def Shape.check (scope : Scope) (x : String) : Shape → Except StaticError Unit
  | plain => scope.checkPlain x
  | array => (scope.arraySize x).map fun _ => ()
  | called => .ok ()

/-- The name is used as the scope allows. -/
def Occurrence.check (scope : Scope) (o : Occurrence) : Except StaticError Unit := do
  let _ ← scope.resolve o.name o.use
  o.shape.check scope o.name

/-- The scope behind an operation, or the rule that the operation breaks. -/
def Operation.apply (scope : Scope) : Operation → Except StaticError Scope
  | declare name kind depth => declareName scope name kind depth
  | size n => (scope.recordSize n).map Prod.snd
  | enter depth => if depth > Scope.maxDepth then .error .nestedTooDeep else .ok scope
  | use o => (o.check scope).map fun _ => scope
  | close => .ok scope.close

/-- The scope behind operations, or the first rule that one of them breaks. -/
def applyAll (scope : Scope) (operations : List Operation) : Except StaticError Scope :=
  operations.foldlM Operation.apply scope

/-- The scope behind uses of names, which is the one in front of them. -/
def useAll (scope : Scope) (uses : List Occurrence) : Except StaticError Scope :=
  applyAll scope (uses.map .use)

theorem applyAll_append (scope : Scope) (ops ops' : List Operation) :
    applyAll scope (ops ++ ops') = applyAll scope ops >>= fun scope => applyAll scope ops' :=
  List.foldlM_append

theorem applyAll_cons (scope : Scope) (op : Operation) (ops : List Operation) :
    applyAll scope (op :: ops) = op.apply scope >>= fun scope => applyAll scope ops :=
  List.foldlM_cons

theorem useAll_append (scope : Scope) (uses uses' : List Occurrence) :
    useAll scope (uses ++ uses') = useAll scope uses >>= fun scope => useAll scope uses' := by
  simp only [useAll, List.map_append, applyAll_append]

theorem useAll_cons (scope : Scope) (o : Occurrence) (uses : List Occurrence) :
    useAll scope (o :: uses) = o.check scope >>= fun _ => useAll scope uses := by
  simp only [useAll, List.map_cons, applyAll_cons, Operation.apply]
  cases o.check scope <;> rfl

theorem scope_of_useAll {scope scope' : Scope} {uses : List Occurrence}
    (h : useAll scope uses = .ok scope') : scope' = scope := by
  induction uses with
  | nil => exact (Except.ok.inj h).symm
  | cons o uses ih =>
    rw [useAll_cons] at h
    cases hc : o.check scope with
    | error e => rw [hc] at h; cases h
    | ok u => rw [hc] at h; exact ih h

end PlZero.Tree
