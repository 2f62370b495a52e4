import PlZero.Proofs.C.Fragments
import PlZero.Proofs.C.Grammar

/-!
# Templates as C reads them

The fragments that are whole statements, read by the grammar of C. Calls, what prints a number or a
text, and what reads a character are one statement each. What reads a number is three
(`readDecimal_eq`), and what prints an array is two (`printArray_eq`).
-/

namespace PlZero

open C (Expression)

variable {x : String}

/-! ### Parts of expressions -/

/-- A word that is no keyword, at any level. -/
theorem expression_word (hx : x ∉ C.keywords) (l : Nat) : Expression l [.word x] :=
  (Expression.word hx).loosen (Nat.zero_le l)

theorem expression_number (n : String) (l : Nat) : Expression l [.number n] :=
  (Expression.number n).loosen (Nat.zero_le l)

theorem expression_quoted (q : String) (l : Nat) : Expression l [.quoted q] :=
  (Expression.quoted q).loosen (Nat.zero_le l)

/-- Two arguments, or the arguments in front of another one and that one. -/
theorem arguments {ts us : List C.Token} (h : Expression 15 ts) (h' : Expression 14 us) :
    Expression 15 (ts ++ .mark "," :: us) :=
  .binary (by decide) h h'

/-! ### Single statements -/

/-- A call of a function of the standard library, whose value is not used. -/
theorem voidCall (hx : x ∉ C.keywords) {ts : List C.Token} (h : Expression 15 ts) :
    Expression 2 (.mark "(" :: .word "void" :: .mark ")" :: .word x :: .mark "(" ::
      (ts ++ [.mark ")"])) :=
  have hcall : Expression 0 (.word x :: .mark "(" :: (ts ++ [.mark ")"])) :=
    .call (.word hx) h
  have htype : ∀ n ∈ ["void"], n ∈ C.typeWords := by decide
  .cast htype (hcall.loosen (by decide))

theorem isExpression_operand {o : Operand} (h : ∀ x, o = .name x → x ∉ C.keywords) :
    Expression 0 [o.token] := by
  cases o with
  | name x => exact .word (h x rfl)
  | number value => exact .number _

theorem statement_call (hx : x ∉ C.keywords) : C.Statement (Fragment.call x).tokens :=
  have hcall : Expression 0 [.word x, .mark "(", .mark ")"] := .callNone (.word hx)
  .expression (hcall.loosen (by decide))

theorem statement_print (form : Form) {o : Operand} (h : ∀ x, o = .name x → x ∉ C.keywords) :
    C.Statement (Fragment.print form o).tokens := by
  have hoperand : Expression 2 [o.token] := (isExpression_operand h).loosen (by decide)
  have hstdout : Expression 15 [.word "stdout"] := expression_word (by decide) 15
  have hname : "fprintf" ∉ C.keywords := by decide
  have hprint (format : String) {type : List String} (htype : ∀ n ∈ type, n ∈ C.typeWords) :=
    voidCall hname (arguments (arguments hstdout (expression_quoted format 14))
      ((Expression.cast htype hoperand).loosen (by decide : 2 ≤ 14)))
  cases form with
  | decimal =>
    have hall := hprint "\"%ld\"" (by decide : ∀ n ∈ ["long"], n ∈ C.typeWords)
    exact .expression (hall.loosen (by decide))
  | character =>
    have hall := hprint "\"%c\"" (by decide : ∀ n ∈ ["unsigned", "char"], n ∈ C.typeWords)
    exact .expression (hall.loosen (by decide))

theorem statement_printText (content : String) :
    C.Statement (Fragment.printText content).tokens := by
  have hname : "fputs" ∉ C.keywords := by decide
  have harguments := arguments (expression_quoted (Text.cString content) 15)
    (expression_word (by decide : "stdout" ∉ C.keywords) 14)
  exact .expression ((voidCall hname harguments).loosen (by decide))

theorem statement_readCharacter (hx : x ∉ C.keywords) :
    C.Statement (Fragment.read .character x).tokens := by
  have htype : ∀ n ∈ ["int"], n ∈ C.typeWords := by decide
  have hcall : Expression 0 [.word "fgetc", .mark "(", .word "stdin", .mark ")"] :=
    .call (.word (by decide)) (expression_word (by decide) 15)
  have hvalue := (Expression.cast htype (hcall.loosen (by decide))).loosen (by decide : 2 ≤ 14)
  have hstore : Expression 14 [.word x, .mark "=", .mark "(", .word "int", .mark ")",
      .word "fgetc", .mark "(", .word "stdin", .mark ")"] :=
    .assign (by decide) (expression_word hx 1) hvalue
  exact .expression (hstore.loosen (by decide))

/-! ### Several statements -/

/-- What `readInt` does first: it reads a line, and makes it empty if there is none. -/
def readLineTokens : List C.Token :=
  [.word "if", .mark "(", .word "fgets", .mark "(", .word "__stdin", .mark ",", .word "sizeof",
    .mark "(", .word "__stdin", .mark ")", .mark ",", .word "stdin", .mark ")", .mark "==",
    .word "NULL", .mark ")", .word "__stdin", .mark "[", .number "0", .mark "]", .mark "=",
    .quoted "'\\0'", .mark ";"]

/-- What `readInt` does next: it cuts off the line feed. -/
def cutLineTokens : List C.Token :=
  [.word "if", .mark "(", .word "__stdin", .mark "[", .number "0", .mark "]", .mark "!=",
    .quoted "'\\0'", .mark "&&", .word "__stdin", .mark "[", .word "strlen", .mark "(",
    .word "__stdin", .mark ")", .mark "-", .number "1", .mark "]", .mark "==", .quoted "'\\n'",
    .mark ")", .word "__stdin", .mark "[", .word "strlen", .mark "(", .word "__stdin", .mark ")",
    .mark "-", .number "1", .mark "]", .mark "=", .quoted "'\\0'", .mark ";"]

/-- What `readInt` does last: it stores the number. -/
def storeTokens (x : String) : List C.Token :=
  [.word x, .mark "=", .word "__pl0_parse_int", .mark "(", .word "__stdin", .mark ")", .mark ";"]

/-- Printing an array begins at its first element. -/
def startTokens : List C.Token := [.word "__writestridx", .mark "=", .number "0", .mark ";"]

/-- The loop that prints the elements of an array. -/
def loopTokens (x : String) (size : Nat) : List C.Token :=
  [.word "while", .mark "(", .word "__writestridx", .mark "<", .number (Text.decimal size),
    .mark "&&", .word x, .mark "[", .word "__writestridx", .mark "]", .mark "!=",
    .quoted "'\\0'", .mark ")", .mark "(", .word "void", .mark ")", .word "putchar", .mark "(",
    .mark "(", .word "unsigned", .word "char", .mark ")", .word x, .mark "[",
    .word "__writestridx", .mark "++", .mark "]", .mark ")", .mark ";"]

theorem readDecimal_eq (x : String) :
    (Fragment.read .decimal x).tokens = readLineTokens ++ (cutLineTokens ++ storeTokens x) := rfl

theorem printArray_eq (x : String) (size : Nat) :
    (Fragment.printArray x size).tokens = startTokens ++ loopTokens x size := rfl

/-- A character of the buffer becomes zero. -/
theorem statement_clear {ts : List C.Token} (h : Expression 15 ts) :
    C.Statement (.word "__stdin" :: .mark "[" :: (ts ++ [.mark "]", .mark "=", .quoted "'\\0'",
      .mark ";"])) := by
  have helement := Expression.element (expression_word (by decide : "__stdin" ∉ C.keywords) 0) h
  have hstore := Expression.assign (by decide : "=" ∈ C.assignmentOperators)
    (helement.loosen (by decide)) (expression_quoted "'\\0'" 14)
  simpa using C.Statement.expression (hstore.loosen (by decide))

theorem statement_readLine : C.Statement readLineTokens := by
  have hbuffer (l : Nat) : Expression l [.word "__stdin"] := expression_word (by decide) l
  have hsize : Expression 14 (.word "sizeof" :: .mark "(" :: [.word "__stdin", .mark ")"]) :=
    (Expression.sizeOf ((Expression.group (hbuffer 15)).loosen (by decide))).loosen (by decide)
  have hcall := Expression.call (expression_word (by decide : "fgets" ∉ C.keywords) 0)
    (arguments (arguments (hbuffer 15) hsize)
      (expression_word (by decide : "stdin" ∉ C.keywords) 14))
  have htest := Expression.binary (by decide : ("==", 7) ∈ C.binaryOperators)
    (hcall.loosen (by decide)) (expression_word (by decide : "NULL" ∉ C.keywords) 6)
  exact .ifThen (htest.loosen (by decide)) (statement_clear (expression_number "0" 15))

/-- The index of the last character in the buffer. -/
theorem expression_lastIndex : Expression 15 [.word "strlen", .mark "(", .word "__stdin", .mark ")",
    .mark "-", .number "1"] := by
  have hcall := Expression.call (expression_word (by decide : "strlen" ∉ C.keywords) 0)
    (expression_word (by decide : "__stdin" ∉ C.keywords) 15)
  have hall := Expression.binary (by decide : ("-", 4) ∈ C.binaryOperators)
    (hcall.loosen (by decide)) (expression_number "1" 3)
  exact hall.loosen (by decide)

theorem statement_cutLine : C.Statement cutLineTokens := by
  have hbuffer : Expression 0 [.word "__stdin"] := expression_word (by decide) 0
  have hfirst := Expression.binary (by decide : ("!=", 7) ∈ C.binaryOperators)
    ((Expression.element hbuffer (expression_number "0" 15)).loosen (by decide))
    (expression_quoted "'\\0'" 6)
  have hlast := Expression.binary (by decide : ("==", 7) ∈ C.binaryOperators)
    ((Expression.element hbuffer expression_lastIndex).loosen (by decide))
    (expression_quoted "'\\n'" 6)
  have htest := Expression.binary (by decide : ("&&", 11) ∈ C.binaryOperators)
    (hfirst.loosen (by decide)) (hlast.loosen (by decide))
  exact .ifThen (htest.loosen (by decide)) (statement_clear expression_lastIndex)

theorem statement_store (hx : x ∉ C.keywords) : C.Statement (storeTokens x) := by
  have hcall : Expression 0 [.word "__pl0_parse_int", .mark "(", .word "__stdin", .mark ")"] :=
    .call (.word (by decide)) (expression_word (by decide) 15)
  have hstore : Expression 14 [.word x, .mark "=", .word "__pl0_parse_int", .mark "(",
      .word "__stdin", .mark ")"] :=
    .assign (by decide) (expression_word hx 1) (hcall.loosen (by decide))
  exact .expression (hstore.loosen (by decide))

theorem statement_start : C.Statement startTokens := by
  have hstore : Expression 14 [.word "__writestridx", .mark "=", .number "0"] :=
    .assign (by decide) (expression_word (by decide) 1) (expression_number "0" 14)
  exact .expression (hstore.loosen (by decide))

theorem statement_loop (hx : x ∉ C.keywords) (size : Nat) : C.Statement (loopTokens x size) := by
  have hindex (l : Nat) : Expression l [.word "__writestridx"] := expression_word (by decide) l
  have hbound := Expression.binary (by decide : ("<", 6) ∈ C.binaryOperators) (hindex 6)
    (expression_number (Text.decimal size) 5)
  have hzero := Expression.binary (by decide : ("!=", 7) ∈ C.binaryOperators)
    ((Expression.element (expression_word hx 0) (hindex 15)).loosen (by decide))
    (expression_quoted "'\\0'" 6)
  have htest := Expression.binary (by decide : ("&&", 11) ∈ C.binaryOperators)
    (hbound.loosen (by decide)) (hzero.loosen (by decide))
  have hnext := Expression.stepBehind (by decide : "++" ∈ C.stepOperators) (hindex 0)
  have helement := Expression.element (expression_word hx 0) (hnext.loosen (by decide))
  have htype : ∀ n ∈ ["unsigned", "char"], n ∈ C.typeWords := by decide
  have hargument := Expression.cast htype (helement.loosen (by decide))
  have hput := voidCall (by decide : "putchar" ∉ C.keywords) (hargument.loosen (by decide))
  exact .whileDo (htest.loosen (by decide)) (.expression (hput.loosen (by decide)))

end PlZero
