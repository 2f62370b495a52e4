import PlZero.Text.CString
import PlZero.Token

/-!
# Fragments of C

The generated program is a sequence of fragments: the frame around the program, the heads of
declarations and functions, names, numbers and operators, and whole statements for reading
and writing. `Fragment.text` is the C text of a fragment. It is written in parts, the names
and numbers apart from what stands around them (`Fragment.parts`).
-/

namespace PlZero

/-- The version that the generated program and the command line name. -/
def version : String := "1.0.0"

/-- A block is the body of the whole program or of one procedure. -/
inductive Block
  | program | procedure
  deriving DecidableEq, Repr

/-- A number is read and written in decimal digits, or as a single character. -/
inductive Form
  | decimal | character
  deriving DecidableEq, Repr

/-- What a statement writes: the value of a name or a number. -/
inductive Operand
  | name (x : String)
  | number (value : Int)
  deriving DecidableEq, Repr

/-- An operand as C text. -/
def Operand.text : Operand → String
  | .name x => x
  | .number value => Text.decimal value

/-- A piece of generated C. -/
inductive Fragment
  /-- What stands before every program. -/
  | preamble
  /-- What stands behind every finished program. -/
  | trailer
  | constantHead (name : String)
  | constantValue (value : Int)
  | variableHead (name : String)
  | arrayBound (size : Nat)
  | variableEnd
  /-- The blank line after a list of variables. -/
  | variablesEnd
  | procedureHead (name : String)
  | mainHead
  | bodyEnd (block : Block)
  | name (x : String)
  | number (value : Int)
  /-- An operator, a bracket or a parenthesis that C writes as PL/0 does. -/
  | mark (m : Mark)
  | assign
  | equal
  | unequal
  | oddHead
  | oddEnd
  | call (procedure : String)
  | blockHead
  | blockNext
  | blockEnd
  | ifHead
  | whileHead
  /-- The end of the condition of an `if` or a `while`. -/
  | conditionEnd
  | print (form : Form) (operand : Operand)
  | read (form : Form) (name : String)
  | printArray (name : String) (size : Nat)
  | printText (content : String)
  deriving DecidableEq, Repr

namespace Fragment

/-- The frame's beginning: the headers, the buffer that a decimal number is read into, the
index that runs over a printed array, and the function that reads a number from the buffer. -/
def preambleText : String :=
  "/* PL/0 compiler output */\n" ++
  "\n" ++
  "#include <errno.h>\n" ++
  "#include <stdio.h>\n" ++
  "#include <stdlib.h>\n" ++
  "#include <string.h>\n" ++
  "\n" ++
  "static char __stdin[24];\n" ++
  "static long __writestridx;\n" ++
  "\n" ++
  "static long\n" ++
  "__pl0_parse_int(const char *text)\n" ++
  "\x7b\n" ++
  "\tchar *end;\n" ++
  "\tlong value;\n" ++
  "\n" ++
  "\terrno = 0;\n" ++
  "\tvalue = strtol(text, &end, 10);\n" ++
  "\tif (errno != 0 || end == text || *end != '\\0') \x7b\n" ++
  "\t\t(void) fprintf(stderr, \"invalid number: %s\\n\", text);\n" ++
  "\t\texit(1);\n" ++
  "\t\x7d\n" ++
  "\n" ++
  "\treturn value;\n" ++
  "\x7d\n" ++
  "\n"

/-- Reads a line into the buffer, cuts off its line feed, and stores the number that it
holds. -/
def readDecimalText (name : String) : String :=
  "if(fgets(__stdin, sizeof(__stdin), stdin) == NULL)__stdin[0] = '\\0';\n" ++
  "if(__stdin[0] != '\\0' && __stdin[strlen(__stdin) - 1] == '\\n')" ++
  "__stdin[strlen(__stdin) - 1] = '\\0';\n" ++
  name ++ "=__pl0_parse_int(__stdin);"

/-- Prints an array as characters, up to a zero or to its end; the end is tested before the
element. -/
def printArrayText (name : String) (size : Nat) : String :=
  "__writestridx = 0;\n" ++
  "while(__writestridx<" ++ Text.decimal size ++ "&&" ++ name ++ "[__writestridx]!='\\0')\n" ++
  "(void) putchar((unsigned char) " ++ name ++ "[__writestridx++]);"

/-- The C text of a fragment. -/
def text : Fragment → String
  | preamble => preambleText
  | trailer => "/* PL/0 compiler " ++ version ++ " */\n"
  | constantHead x => "const long " ++ x ++ "="
  | constantValue value => Text.decimal value ++ ";\n"
  | variableHead x => "long " ++ x
  | arrayBound size => "[" ++ Text.decimal size ++ "]"
  | variableEnd => ";\n"
  | variablesEnd => "\n"
  | procedureHead p => "void\n" ++ p ++ "(void)\n\x7b\n"
  | mainHead => "int\nmain(int argc, char *argv[])\n\x7b\n"
  | bodyEnd .program => ";\nreturn 0;\n\x7d\n\n"
  | bodyEnd .procedure => ";\n\x7d\n\n"
  | name x => x
  | number value => Text.decimal value
  | mark m => m.spelling
  | assign => "="
  | equal => "=="
  | unequal => "!="
  | oddHead => "("
  | oddEnd => ")&1"
  | call p => p ++ "();\n"
  | blockHead => "\x7b\n"
  | blockNext => ";\n"
  | blockEnd => ";\n\x7d\n"
  | ifHead => "if("
  | whileHead => "while("
  | conditionEnd => ")\n"
  | print .decimal operand => "(void) fprintf(stdout, \"%ld\", (long) " ++ operand.text ++ ");"
  | print .character operand =>
    "(void) fprintf(stdout, \"%c\", (unsigned char) " ++ operand.text ++ ");"
  | read .decimal x => readDecimalText x
  | read .character x => x ++ "=(int) fgetc(stdin);"
  | printArray x size => printArrayText x size
  | printText content => "(void) fputs(" ++ Text.cString content ++ ", stdout);"

/-- The parts of the statements that read a number. -/
def readDecimalParts (name : String) : List String :=
  ["if(fgets(__stdin, sizeof(__stdin), stdin) == NULL)__stdin[0] = '\\0';\n",
    "if(__stdin[0] != '\\0' && __stdin[strlen(__stdin) - 1] == '\\n')" ++
      "__stdin[strlen(__stdin) - 1] = '\\0';\n",
    name, "=__pl0_parse_int(__stdin);"]

/-- The parts in which a fragment is written, one after the other. -/
def parts : Fragment → List String
  | preamble => [preambleText]
  | trailer => ["/* PL/0 compiler " ++ version ++ " */\n"]
  | constantHead x => ["const long ", x, "="]
  | constantValue value => [Text.decimal value, ";\n"]
  | variableHead x => ["long ", x]
  | arrayBound size => ["[", Text.decimal size, "]"]
  | variableEnd => [";\n"]
  | variablesEnd => ["\n"]
  | procedureHead p => ["void\n", p, "(void)\n\x7b\n"]
  | mainHead => ["int\nmain(int argc, char *argv[])\n\x7b\n"]
  | bodyEnd .program => [";", "\nreturn 0;", "\n\x7d\n\n"]
  | bodyEnd .procedure => [";", "\n\x7d\n\n"]
  | name x => [x]
  | number value => [Text.decimal value]
  | mark m => [m.spelling]
  | assign => ["="]
  | equal => ["=="]
  | unequal => ["!="]
  | oddHead => ["("]
  | oddEnd => [")&1"]
  | call p => [p, "();\n"]
  | blockHead => ["\x7b\n"]
  | blockNext => [";\n"]
  | blockEnd => [";\n\x7d\n"]
  | ifHead => ["if("]
  | whileHead => ["while("]
  | conditionEnd => [")\n"]
  | print .decimal operand => ["(void) fprintf(stdout, \"%ld\", (long) ", operand.text, ");"]
  | print .character operand =>
    ["(void) fprintf(stdout, \"%c\", (unsigned char) ", operand.text, ");"]
  | read .decimal x => readDecimalParts x
  | read .character x => [x, "=(int) fgetc(stdin);"]
  | printArray x size =>
    ["__writestridx = 0;\n", "while(__writestridx<", Text.decimal size, "&&", x,
      "[__writestridx]!='\\0')\n", "(void) putchar((unsigned char) ", x, "[__writestridx++]);"]
  | printText content => ["(void) fputs(", Text.cString content, ", stdout);"]

/-- The parts make up the whole text. -/
theorem join_parts (f : Fragment) : String.join f.parts = f.text := by
  cases f with
  | bodyEnd block => cases block <;> decide
  | print form | read form =>
    cases form <;>
      simp only [parts, readDecimalParts, String.join_cons, String.join_nil, String.append_empty,
        ← String.append_assoc] <;>
      rfl
  | _ =>
    simp only [parts, String.join_cons, String.join_nil, String.append_empty, ← String.append_assoc]
    rfl

end Fragment

/-- The text of fragments one behind the other. -/
def codeOf (fs : List Fragment) : String := String.join (fs.map Fragment.text)

@[simp]
theorem codeOf_nil : codeOf [] = "" := rfl

@[simp]
theorem codeOf_cons (f : Fragment) (fs : List Fragment) :
    codeOf (f :: fs) = f.text ++ codeOf fs := by
  simp [codeOf]

@[simp]
theorem codeOf_append (fs gs : List Fragment) : codeOf (fs ++ gs) = codeOf fs ++ codeOf gs := by
  simp [codeOf]

end PlZero
