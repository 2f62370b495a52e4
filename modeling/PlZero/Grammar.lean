import PlZero.Failure
import PlZero.Fragment
import PlZero.ReservedName

/-!
# The grammar as goals

```text
program    = block "." .
block      = [ "const" name "=" number { "," name "=" number } ";" ]
             [ "var" name [ "size" number ] { "," name [ "size" number ] } ";" ]
             { "procedure" name ";" block ";" } statement .
statement  = [ name [ "[" expression "]" ] ":=" expression
             | "call" name
             | "begin" statement { ";" statement } "end"
             | "if" condition "then" statement
             | "while" condition "do" statement
             | ( "writeInt" | "writeChar" ) ( name | number )
             | ( "readInt" | "readChar" ) [ "into" ] name
             | "writeStr" ( name | text ) ] .
condition  = "odd" expression
           | expression ( "=" | "#" | "<" | ">" ) expression .
expression = [ "+" | "-" ] term { ( "+" | "-" ) term } .
term       = factor { ( "*" | "/" ) factor } .
factor     = name [ "[" expression "]" ] | number | "(" expression ")" .
```

A program is compiled while it is read, by working off a list of goals. A goal is a
nonterminal that is still to be recognised, a slot that the next token has to fill, or an
action that takes no token. The next token alone decides what a nonterminal stands for
(`Nonterminal.expansion`), and a repetition is a nonterminal that may stand for nothing,
such as `moreTerms`.

The goals of one nonterminal carry its C code as well: a slot may write a fragment when its
token is read (`Slot.fill`), and an action may write one between two tokens.
-/

namespace PlZero

/-! ### Slots, actions and goals -/

/-- A token that has one spelling only. -/
inductive Fixed
  | word (k : Keyword)
  | mark (m : Mark)
  deriving DecidableEq, Repr

/-- The token itself. -/
def Fixed.token : Fixed → Token
  | word k => .keyword k
  | mark m => .mark m

/-- The keyword of the statement that writes a number in the given form. -/
def Form.printKeyword : Form → Keyword
  | decimal => .writeInt
  | character => .writeChar

/-- What the next token has to be. -/
inductive Slot
  /-- A fixed token, for which nothing is written. -/
  | skipped (t : Fixed)
  /-- A fixed token, for which a fragment is written. -/
  | written (t : Fixed) (f : Fragment)
  /-- A name that is declared here. -/
  | declared (kind : Kind)
  /-- The number that a constant stands for. -/
  | constantValue
  /-- The number of elements of the array declared last. -/
  | arrayBound
  /-- The name on the left of an assignment. -/
  | target
  /-- A name or a number in an expression. -/
  | operand
  /-- One of the four relations of a condition. -/
  | relation
  /-- The name of the procedure to call. -/
  | callee
  /-- The operand of a statement that writes a number. -/
  | printed (form : Form)
  /-- The name that a number is read into. -/
  | stored (form : Form)
  /-- The operand of a statement that writes a text. -/
  | printedText
  deriving DecidableEq, Repr

/-- What is done between two tokens. -/
inductive Action
  | write (f : Fragment)
  /-- Reads the very first token. -/
  | fetch
  /-- Opens a block. -/
  | enter
  /-- Closes a block. -/
  | leave
  /-- Forgets what the body of a procedure has declared. -/
  | closeScope
  /-- The name, to which an index follows, has to mean an array. -/
  | checkArray (name : String)
  /-- The name, to which no index follows, must not mean an array. -/
  | checkPlain (name : String)
  /-- No token may follow. -/
  | checkAtEnd
  deriving DecidableEq, Repr

/-- A part of the grammar that the next token decides about. -/
inductive Nonterminal
  | block (b : Block)
  | constantList | moreConstants
  | variableList | variableSize | moreVariables
  | procedureList
  | statement | moreStatements
  | optionalInto
  | condition
  | expression | moreTerms
  | term | moreFactors
  | factor
  /-- The index behind a name, if there is one. -/
  | index (name : String)
  deriving DecidableEq, Repr

/-- One step of the work that is left. -/
inductive Goal
  | expand (n : Nonterminal)
  | fill (s : Slot)
  | perform (a : Action)
  deriving DecidableEq, Repr

namespace Goal

/-- Reads a keyword. -/
abbrev word (k : Keyword) : Goal := fill (.skipped (.word k))

/-- Reads a mark. -/
abbrev mark (m : Mark) : Goal := fill (.skipped (.mark m))

/-- Reads a keyword and writes a fragment for it. -/
abbrev wordAs (k : Keyword) (f : Fragment) : Goal := fill (.written (.word k) f)

/-- Reads a mark and writes a fragment for it. -/
abbrev markAs (m : Mark) (f : Fragment) : Goal := fill (.written (.mark m) f)

/-- Reads a mark that C writes in the same way. -/
abbrev sameMark (m : Mark) : Goal := markAs m (.mark m)

/-- Writes a fragment. -/
abbrev write (f : Fragment) : Goal := perform (.write f)

end Goal

/-! ### What a nonterminal stands for -/

namespace Nonterminal
open Goal

/-- The declaration of one constant and those that follow it. -/
def constantGoals : List Goal :=
  [fill (.declared .constant), mark .equals, fill .constantValue, expand moreConstants]

/-- The declaration of one variable and those that follow it. -/
def variableGoals : List Goal :=
  [fill (.declared .variable), expand variableSize, write .variableEnd, expand moreVariables]

/-- The declaration of one procedure. Its body forgets its own names at the end. -/
def procedureGoals : List Goal :=
  [word .procedure, fill (.declared .procedure), mark .semicolon, expand (block .procedure),
    mark .semicolon, perform .closeScope]

/-- The parts of a block. The body of the whole program is the main function of C, which
begins behind the procedures. -/
def blockGoals : Block → List Goal
  | .program =>
    [perform .enter, expand constantList, expand variableList, expand procedureList,
      write .mainHead, expand statement, write (.bodyEnd .program), perform .leave]
  | .procedure =>
    [perform .enter, expand constantList, expand variableList, expand procedureList,
      expand statement, write (.bodyEnd .procedure), perform .leave]

/-- The statement that begins with `t`; any token that begins none leaves the empty
statement. -/
def statementGoals (t : Token) : List Goal :=
  match t with
  | .name x => [fill .target, expand (index x), markAs .becomes .assign, expand expression]
  | .keyword .call => [word .call, fill .callee]
  | .keyword .begin_ => [wordAs .begin_ .blockHead, expand statement, expand moreStatements]
  | .keyword .if_ =>
    [wordAs .if_ .ifHead, expand condition, wordAs .then_ .conditionEnd, expand statement]
  | .keyword .while_ =>
    [wordAs .while_ .whileHead, expand condition, wordAs .do_ .conditionEnd, expand statement]
  | .keyword .writeInt => [word .writeInt, fill (.printed .decimal)]
  | .keyword .writeChar => [word .writeChar, fill (.printed .character)]
  | .keyword .readInt => [word .readInt, expand optionalInto, fill (.stored .decimal)]
  | .keyword .readChar => [word .readChar, expand optionalInto, fill (.stored .character)]
  | .keyword .writeStr => [word .writeStr, fill .printedText]
  | _ => []

/-- The goals that a nonterminal stands for when `t` is the next token. -/
def expansion (n : Nonterminal) (t : Token) : Except SyntaxError (List Goal) :=
  match n with
  | block b => .ok (blockGoals b)
  | constantList =>
    match t with
    | .keyword .const => .ok (word .const :: constantGoals)
    | _ => .ok []
  | moreConstants =>
    match t with
    | .mark .comma => .ok (mark .comma :: constantGoals)
    | _ => .ok [mark .semicolon]
  | variableList =>
    match t with
    | .keyword .var => .ok (word .var :: variableGoals)
    | _ => .ok []
  | variableSize =>
    match t with
    | .keyword .size => .ok [word .size, fill .arrayBound]
    | _ => .ok []
  | moreVariables =>
    match t with
    | .mark .comma => .ok (mark .comma :: variableGoals)
    | _ => .ok [mark .semicolon, write .variablesEnd]
  | procedureList =>
    match t with
    | .keyword .procedure => .ok (procedureGoals ++ [expand procedureList])
    | _ => .ok []
  | statement => .ok (statementGoals t)
  | moreStatements =>
    match t with
    | .mark .semicolon =>
      .ok [markAs .semicolon .blockNext, expand statement, expand moreStatements]
    | _ => .ok [wordAs .end_ .blockEnd]
  | optionalInto =>
    match t with
    | .keyword .into => .ok [word .into]
    | _ => .ok []
  | condition =>
    match t with
    | .keyword .odd => .ok [wordAs .odd .oddHead, expand expression, write .oddEnd]
    | _ => .ok [expand expression, fill .relation, expand expression]
  | expression =>
    match t with
    | .mark .plus => .ok [sameMark .plus, expand term, expand moreTerms]
    | .mark .minus => .ok [sameMark .minus, expand term, expand moreTerms]
    | _ => .ok [expand term, expand moreTerms]
  | moreTerms =>
    match t with
    | .mark .plus => .ok [sameMark .plus, expand term, expand moreTerms]
    | .mark .minus => .ok [sameMark .minus, expand term, expand moreTerms]
    | _ => .ok []
  | term => .ok [expand factor, expand moreFactors]
  | moreFactors =>
    match t with
    | .mark .star => .ok [sameMark .star, expand factor, expand moreFactors]
    | .mark .slash => .ok [sameMark .slash, expand factor, expand moreFactors]
    | _ => .ok []
  | factor =>
    match t with
    | .name x => .ok [fill .operand, expand (index x)]
    | .number _ _ => .ok [fill .operand]
    | .mark .leftParen => .ok [sameMark .leftParen, expand expression, sameMark .rightParen]
    | _ => .error (.noFactor t)
  | index x =>
    match t with
    | .mark .leftBracket =>
      .ok [perform (.checkArray x), sameMark .leftBracket, expand expression,
        sameMark .rightBracket]
    | _ => .ok [perform (.checkPlain x)]

end Nonterminal

/-- The work that a whole program is. -/
def programGoals : List Goal :=
  [.write .preamble, .perform .fetch, .expand (.block .program), .mark .dot, .perform .checkAtEnd,
    .write .trailer]

/-! ### How a token fills a slot -/

/-- A broken rule about names stops the run. -/
def orStatic {α : Type} (e : Except StaticError α) : Except Failure α :=
  e.mapError .static

/-- The fragment that declares a name, up to where its value or size follows. -/
def declarationHead (kind : Kind) (name : String) : Fragment :=
  match kind with
  | .constant => .constantHead name
  | .variable => .variableHead name
  | .procedure => .procedureHead name

/-- Declares a name in the scope, unless it is reserved. -/
def declareName (scope : Scope) (name : String) (kind : Kind) (depth : Nat) :
    Except StaticError Scope :=
  if isReserved name then .error (.reserved name) else scope.declare name kind depth

/-- The C operator for a relation of PL/0. -/
def relationFragment? : Token → Option Fragment
  | .mark .equals => some .equal
  | .mark .differs => some .unequal
  | .mark .below => some (.mark .below)
  | .mark .above => some (.mark .above)
  | _ => none

/-- Fills a slot with the next token: the scope afterwards, and the fragment to write. The
grammar is asked before the rules about names. -/
def Slot.fill (slot : Slot) (depth : Nat) (scope : Scope) (t : Token) :
    Except Failure (Scope × Option Fragment) :=
  match slot with
  | skipped expected =>
    if t = expected.token then .ok (scope, none)
    else .error (.grammar (.unexpected expected.token t))
  | written expected f =>
    if t = expected.token then .ok (scope, some f)
    else .error (.grammar (.unexpected expected.token t))
  | declared kind =>
    match t with
    | .name x => do
      let scope ← orStatic (declareName scope x kind depth)
      return (scope, some (declarationHead kind x))
    | _ => .error (.grammar (.noName t))
  | constantValue =>
    match t with
    | .number value _ => .ok (scope, some (.constantValue value))
    | _ => .error (.grammar (.noNumber t))
  | arrayBound =>
    match t with
    | .number value _ => do
      let (size, scope) ← orStatic (scope.recordSize value)
      return (scope, some (.arrayBound size))
    | _ => .error (.grammar (.noNumber t))
  | target =>
    match t with
    | .name x => do
      let _ ← orStatic (scope.resolve x .target)
      return (scope, some (.name x))
    | _ => .error (.grammar (.noName t))
  | operand =>
    match t with
    | .name x => do
      let _ ← orStatic (scope.resolve x .operand)
      return (scope, some (.name x))
    | .number value _ => .ok (scope, some (.number value))
    | _ => .error (.grammar (.noFactor t))
  | relation =>
    match relationFragment? t with
    | some f => .ok (scope, some f)
    | none => .error (.grammar (.noRelation t))
  | callee =>
    match t with
    | .name p => do
      let _ ← orStatic (scope.resolve p .callee)
      return (scope, some (.call p))
    | _ => .error (.grammar (.noName t))
  | printed form =>
    match t with
    | .name x => do
      let _ ← orStatic (scope.resolve x .operand)
      orStatic (scope.checkPlain x)
      return (scope, some (.print form (.name x)))
    | .number value _ => .ok (scope, some (.print form (.number value)))
    | _ => .error (.grammar (.noOperand form.printKeyword t))
  | stored form =>
    match t with
    | .name x => do
      let _ ← orStatic (scope.resolve x .target)
      orStatic (scope.checkPlain x)
      return (scope, some (.read form x))
    | _ => .error (.grammar (.noName t))
  | printedText =>
    match t with
    | .name x => do
      let _ ← orStatic (scope.resolve x .target)
      let size ← orStatic (scope.arraySize x)
      return (scope, some (.printArray x size))
    | .text content => .ok (scope, some (.printText content))
    | _ => .error (.grammar (.noTextOperand t))

/-- The end of the input fills no slot. -/
theorem Slot.fill_endOfInput (slot : Slot) (depth : Nat) (scope : Scope)
    (r : Scope × Option Fragment) :
    slot.fill depth scope .endOfInput ≠ .ok r := by
  cases slot with
  | skipped f | written f => cases f <;> simp [fill, Fixed.token]
  | _ => simp [fill, relationFragment?]

end PlZero
