import PlZero.Lexer
import PlZero.Scope
import PlZero.Text.CharLiteral
import PlZero.Text.Utf8

/-!
# Failures and how they are reported

Whatever stops a run is a `Failure`: a place without a token, a token that the grammar does
not admit, a broken rule about names, output that cannot be written, or a defect of the
compiler itself. Each cause has one message, each kind of failure one name, and a report is
one line that names the kind, the place and the message.
-/

namespace PlZero

/-- Which token the grammar does not admit, and what it admits instead. -/
inductive SyntaxError
  | unexpected (expected found : Token)
  | noName (found : Token)
  | noNumber (found : Token)
  | noRelation (found : Token)
  | noFactor (found : Token)
  | noOperand (statement : Keyword) (found : Token)
  | noTextOperand (found : Token)
  | notAtEnd (found : Token)
  deriving DecidableEq, Repr

/-- What no program can bring about. -/
inductive Defect
  | depthBelowZero
  deriving DecidableEq, Repr

/-- What stops a run. -/
inductive Failure
  | lexical (e : LexicalError)
  | grammar (e : SyntaxError)
  | static (e : StaticError)
  | defect (d : Defect)
  | output (reason : String)
  deriving DecidableEq, Repr

/-! ### Messages -/

/-- A word of the program, set off from the sentence around it. -/
def quoteWord (word : String) : String := "`" ++ word ++ "`"

/-- The numbers from `least` to the largest one, as messages name the range. -/
def numberRange (least : Int) : String :=
  "[" ++ Text.decimal least ++ ", " ++ Text.decimal maxNumber ++ "]"

/-- The message for each cause. -/
def LexicalError.message : LexicalError → String
  | unknownCharacter c => "Unknown token " ++ Text.charLiteral c
  | brokenAssignment found => "Unknown token " ++ quoteWord (":" ++ found) ++ ", expected `:=`"
  | unclosedComment => "Unterminated comment"
  | unclosedText => "Unterminated string"
  | emptyText => "Empty string literal"
  | numberTooLarge digits =>
    "Invalid number " ++ quoteWord digits ++ ", valid range is " ++ numberRange 0

/-- The message for each cause. -/
def SyntaxError.message : SyntaxError → String
  | unexpected expected found =>
    "Expected " ++ expected.description ++ ", found " ++ found.description ++ " instead"
  | noName found => "Expected identifier, found " ++ found.description ++ " instead"
  | noNumber found => "Expected number, found " ++ found.description ++ " instead"
  | noRelation found =>
    "Invalid conditional, expected any of `=`, `#`, `<`, `>`, found " ++ found.description
  | noFactor found => "Expected an expression, found " ++ found.description ++ " instead"
  | noOperand statement found =>
    quoteWord statement.spelling ++ " takes an identifier or a number, found " ++ found.description
  | noTextOperand found => "`writeStr` takes an array or a string, found " ++ found.description
  | notAtEnd found => "Extra tokens at end of file, found " ++ found.description

/-- The message for each cause. -/
def StaticError.message : StaticError → String
  | undefined x => "Symbol " ++ quoteWord x ++ " is undefined"
  | duplicate x => "Duplicate symbol " ++ quoteWord x
  | notVariable x => quoteWord x ++ " must be a variable"
  | isProcedure x => quoteWord x ++ " must not be a procedure"
  | notProcedure x => quoteWord x ++ " must be a procedure"
  | sizeOfNonVariable => "Arrays must be declared with `var`"
  | sizeOutOfRange size =>
    "Invalid array size " ++ Text.decimal size ++ ", valid range is " ++ numberRange 1
  | notArray x => "Symbol " ++ quoteWord x ++ " is not an array"
  | arrayWithoutIndex x => "Array " ++ quoteWord x ++ " must be indexed"
  | reserved x => quoteWord x ++ " is reserved in the generated C code"
  | nestedTooDeep => "Nesting depth exceeded"

/-- The message for each cause. -/
def Defect.message : Defect → String
  | depthBelowZero => "Nesting depth fell below 0"

namespace Failure

/-- The message that says what is wrong. -/
def message : Failure → String
  | lexical e => e.message
  | grammar e => e.message
  | static e => e.message
  | defect d => d.message
  | output reason => "Failed to write output: " ++ reason

/-- The name of the kind of failure. -/
def kind : Failure → String
  | lexical _ => "lexical error"
  | grammar _ => "syntax error"
  | static _ => "semantic error"
  | defect _ => "internal error"
  | output _ => "output error"

/-- Whether the compiler itself is to blame. -/
def isDefect : Failure → Bool
  | defect _ => true
  | _ => false

end Failure

/-! ### Reports -/

/-- A place in a program: the name of its source and the line. -/
def place (sourceName : String) (line : Line) : String :=
  sourceName ++ ":" ++ Nat.repr line.toNat

/-- The line that tells a user what is wrong and where. -/
def reportLine (kind sourceName : String) (line : Line) (message : String) : String :=
  "pl0c: " ++ kind ++ ": " ++ place sourceName line ++ ": " ++ message ++ "\n"

/-- The report of a failure, under the name of its kind. -/
def Failure.report (sourceName : String) (f : Located Failure) : String :=
  reportLine f.value.kind sourceName f.line f.value.message

end PlZero
