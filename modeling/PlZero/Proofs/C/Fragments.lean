import PlZero.Fragment
import PlZero.Proofs.C.Scanner

/-!
# The tokens of fragments

Where one fragment ends and the next begins, C could read one token across the border. Of the border
only a little has to be known: in what the one fragment ends (`Ending`) and with what the other
begins (`Beginning`). Where these fit together (`Ending.Fits`), the fragments keep their own tokens,
and so do all the fragments of a list in which each two neighbours fit (`Joined.tokens_codeOf`).
-/

namespace PlZero

open C (Breaks IsOperand Pending after tokens)

/-! ### Borders of fragments -/

/-- With what a fragment begins. -/
inductive Beginning
  /-- A letter, a digit or an underscore. -/
  | word
  | paren
  /-- A plus or a minus. -/
  | sign
  | other
  deriving DecidableEq, Repr

/-- In what a fragment ends. -/
inductive Ending
  /-- Nothing that could be continued. -/
  | settled
  /-- A word, a number, or a bracket that closes. -/
  | operand
  /-- An operator or a bracket that opens. -/
  | operator
  /-- A plus or a minus. -/
  | sign
  deriving DecidableEq, Repr

/-- No token reaches across the border. -/
def Ending.Fits : Ending → Beginning → Prop
  | settled, _ => True
  | operand, b => b ≠ .word
  | operator, b => b ≠ .other
  | sign, b => b = .word ∨ b = .paren

instance : (e : Ending) → (b : Beginning) → Decidable (e.Fits b)
  | .settled, _ => .isTrue trivial
  | .operand, b => inferInstanceAs (Decidable (b ≠ .word))
  | .operator, b => inferInstanceAs (Decidable (b ≠ .other))
  | .sign, b => inferInstanceAs (Decidable (b = .word ∨ b = .paren))

/-- A character that a fragment of this kind may begin with. -/
def Beginning.Admits : Beginning → Char → Prop
  | word, c => isWordPart c
  | paren, c => c = '('
  | sign, c => c = '+' ∨ c = '-'
  | other, c => c ∈ ['[', ']', ')', '*', '/', '=', '!', '<', '>', ';', '\x7b', '\n']

/-- What fits behind this kind of fragment does not continue the lexeme `p`. -/
def Ending.Admits (e : Ending) (p : Pending) : Prop :=
  ∀ b c, e.Fits b → b.Admits c → p.extend c = none

/-- The operand is a word or a number without a sign. -/
def Operand.WellFormed : Operand → Prop
  | name x => IsWord x
  | number value => 0 ≤ value

namespace Fragment

/-- The names in a fragment are words, its numbers have no sign, and C writes its mark in the same
way. -/
def WellFormed : Fragment → Prop
  | constantHead x | variableHead x | procedureHead x | name x | call x | read _ x
  | printArray x _ => IsWord x
  | constantValue value | number value => 0 ≤ value
  | print _ operand => operand.WellFormed
  | mark m => m ∈ [.below, .above, .plus, .minus, .star, .slash, .leftParen, .rightParen,
      .leftBracket, .rightBracket]
  | _ => True

instance (m : Mark) : Decidable (mark m).WellFormed := inferInstanceAs (Decidable (m ∈ _))

/-- With what the text of a fragment begins. -/
def beginning : Fragment → Beginning
  | constantHead _ | constantValue _ | variableHead _ | procedureHead _ | mainHead | name _
  | number _ | call _ | ifHead | whileHead | read _ _ | printArray _ _ => .word
  | oddHead | print _ _ | printText _ | mark .leftParen => .paren
  | mark .plus | mark .minus => .sign
  | _ => .other

/-- In what the text of a fragment ends. -/
def ending : Fragment → Ending
  | variableHead _ | arrayBound _ | name _ | number _ | oddEnd | mark .rightParen
  | mark .rightBracket => .operand
  | mark .plus | mark .minus => .sign
  | constantHead _ | assign | equal | unequal | oddHead | ifHead | whileHead | mark _ => .operator
  | _ => .settled

end Fragment

/-- The token of an operand. -/
def Operand.token : Operand → C.Token
  | name x => .word x
  | number value => .number (Text.decimal value)

/-- The tokens of a fragment. -/
def Fragment.tokens : Fragment → List C.Token
  | preamble =>
    [.directive "#include <errno.h>", .directive "#include <stdio.h>",
      .directive "#include <stdlib.h>", .directive "#include <string.h>", .word "static",
      .word "char", .word "__stdin", .mark "[", .number "24", .mark "]", .mark ";", .word "static",
      .word "long", .word "__writestridx", .mark ";", .word "static", .word "long",
      .word "__pl0_parse_int", .mark "(", .word "const", .word "char", .mark "*", .word "text",
      .mark ")", .mark "\x7b", .word "char", .mark "*", .word "end", .mark ";", .word "long",
      .word "value", .mark ";", .word "errno", .mark "=", .number "0", .mark ";", .word "value",
      .mark "=", .word "strtol", .mark "(", .word "text", .mark ",", .mark "&", .word "end",
      .mark ",", .number "10", .mark ")", .mark ";", .word "if", .mark "(", .word "errno",
      .mark "!=", .number "0", .mark "||", .word "end", .mark "==", .word "text", .mark "||",
      .mark "*", .word "end", .mark "!=", .quoted "'\\0'", .mark ")", .mark "\x7b", .mark "(",
      .word "void", .mark ")", .word "fprintf", .mark "(", .word "stderr", .mark ",",
      .quoted "\"invalid number: %s\\n\"", .mark ",", .word "text", .mark ")", .mark ";",
      .word "exit", .mark "(", .number "1", .mark ")", .mark ";", .mark "\x7d", .word "return",
      .word "value", .mark ";", .mark "\x7d"]
  | trailer | variablesEnd => []
  | constantHead x => [.word "const", .word "long", .word x, .mark "="]
  | constantValue value => [.number (Text.decimal value), .mark ";"]
  | variableHead x => [.word "long", .word x]
  | arrayBound size => [.mark "[", .number (Text.decimal size), .mark "]"]
  | procedureHead p =>
    [.word "void", .word p, .mark "(", .word "void", .mark ")", .mark "\x7b"]
  | mainHead =>
    [.word "int", .word "main", .mark "(", .word "int", .word "argc", .mark ",", .word "char",
      .mark "*", .word "argv", .mark "[", .mark "]", .mark ")", .mark "\x7b"]
  | bodyEnd .program => [.mark ";", .word "return", .number "0", .mark ";", .mark "\x7d"]
  | bodyEnd .procedure | blockEnd => [.mark ";", .mark "\x7d"]
  | name x => [.word x]
  | number value => [.number (Text.decimal value)]
  | mark m => [.mark m.spelling]
  | assign => [.mark "="]
  | equal => [.mark "=="]
  | unequal => [.mark "!="]
  | oddHead => [.mark "("]
  | oddEnd => [.mark ")", .mark "&", .number "1"]
  | call p => [.word p, .mark "(", .mark ")", .mark ";"]
  | blockHead => [.mark "\x7b"]
  | blockNext | variableEnd => [.mark ";"]
  | ifHead => [.word "if", .mark "("]
  | whileHead => [.word "while", .mark "("]
  | conditionEnd => [.mark ")"]
  | print .decimal operand =>
    [.mark "(", .word "void", .mark ")", .word "fprintf", .mark "(", .word "stdout", .mark ",",
      .quoted "\"%ld\"", .mark ",", .mark "(", .word "long", .mark ")", operand.token, .mark ")",
      .mark ";"]
  | print .character operand =>
    [.mark "(", .word "void", .mark ")", .word "fprintf", .mark "(", .word "stdout", .mark ",",
      .quoted "\"%c\"", .mark ",", .mark "(", .word "unsigned", .word "char", .mark ")",
      operand.token, .mark ")", .mark ";"]
  | read .decimal x =>
    [.word "if", .mark "(", .word "fgets", .mark "(", .word "__stdin", .mark ",", .word "sizeof",
      .mark "(", .word "__stdin", .mark ")", .mark ",", .word "stdin", .mark ")", .mark "==",
      .word "NULL", .mark ")", .word "__stdin", .mark "[", .number "0", .mark "]", .mark "=",
      .quoted "'\\0'", .mark ";", .word "if", .mark "(", .word "__stdin", .mark "[", .number "0",
      .mark "]", .mark "!=", .quoted "'\\0'", .mark "&&", .word "__stdin", .mark "[",
      .word "strlen", .mark "(", .word "__stdin", .mark ")", .mark "-", .number "1", .mark "]",
      .mark "==", .quoted "'\\n'", .mark ")", .word "__stdin", .mark "[", .word "strlen", .mark "(",
      .word "__stdin", .mark ")", .mark "-", .number "1", .mark "]", .mark "=", .quoted "'\\0'",
      .mark ";", .word x, .mark "=", .word "__pl0_parse_int", .mark "(", .word "__stdin", .mark ")",
      .mark ";"]
  | read .character x =>
    [.word x, .mark "=", .mark "(", .word "int", .mark ")", .word "fgetc", .mark "(", .word "stdin",
      .mark ")", .mark ";"]
  | printArray x size =>
    [.word "__writestridx", .mark "=", .number "0", .mark ";", .word "while", .mark "(",
      .word "__writestridx", .mark "<", .number (Text.decimal size), .mark "&&", .word x, .mark "[",
      .word "__writestridx", .mark "]", .mark "!=", .quoted "'\\0'", .mark ")", .mark "(",
      .word "void", .mark ")", .word "putchar", .mark "(", .mark "(", .word "unsigned",
      .word "char", .mark ")", .word x, .mark "[", .word "__writestridx", .mark "++", .mark "]",
      .mark ")", .mark ";"]
  | printText content =>
    [.mark "(", .word "void", .mark ")", .word "fputs", .mark "(", .quoted (Text.cString content),
      .mark ",", .word "stdout", .mark ")", .mark ";"]

theorem Operand.WellFormed.tokens_text {o : Operand} (h : o.WellFormed) :
    tokens o.text = [o.token] := by
  cases o with
  | name x => exact C.tokens_word h
  | number value => exact C.tokens_decimal h

theorem Operand.WellFormed.isOperand {o : Operand} (h : o.WellFormed) : IsOperand o.text := by
  cases o with
  | name x => exact .inl h
  | number value => exact .inr ⟨value, h, rfl⟩

theorem isOperand_decimal (n : Nat) : IsOperand (Text.decimal n) :=
  .inr ⟨n, Int.natCast_nonneg n, rfl⟩

/-! ### What fits behind a lexeme -/

namespace Ending

theorem settled_admits {p : Pending} (h : ∀ c, p.extend c = none) : settled.Admits p :=
  fun _ c _ _ => h c

theorem operand_admits {p : Pending} (h : ∀ c, C.Stops c → p.extend c = none) :
    operand.Admits p := by
  intro b c hb hc
  refine h c ?_
  cases b with
  | word => exact absurd rfl hb
  | paren => exact hc ▸ by decide
  | sign => rcases hc with rfl | rfl <;> decide
  | other =>
    have : ∀ d ∈ ['[', ']', ')', '*', '/', '=', '!', '<', '>', ';', '\x7b', '\n'], C.Stops d := by
      simp only [List.mem_cons, List.not_mem_nil, or_false, forall_eq_or_imp, forall_eq]
      decide
    exact this c hc

theorem operator_admits {text : List Char} (hdot : text ≠ ['.'])
    (h : (Pending.mark text).extend '(' = none ∧ (Pending.mark text).extend '+' = none ∧
      (Pending.mark text).extend '-' = none) : operator.Admits (.mark text) := by
  intro b c hb hc
  cases b with
  | word => exact C.extend_mark_of_isWordPart hdot hc
  | paren =>
    obtain rfl : c = '(' := hc
    exact h.1
  | sign =>
    rcases hc with rfl | rfl
    · exact h.2.1
    · exact h.2.2
  | other => exact absurd rfl hb

theorem sign_admits {text : List Char} (hdot : text ≠ ['.'])
    (h : (Pending.mark text).extend '(' = none) : sign.Admits (.mark text) := by
  intro b c hb hc
  rcases hb with rfl | rfl
  · exact C.extend_mark_of_isWordPart hdot hc
  · exact (show c = '(' from hc) ▸ h

end Ending

/-! ### Tokens of the templates -/

section Templates

open C.Scans

variable {x : String}

/-- A mark that begins no other one is not continued. -/
theorem extend_alone {d : Char}
    (h : (∀ m ∈ C.marks, m.head? = some d → m = [d]) ∧ d ≠ '/' ∧ d ≠ '.')
    (c : Char) : (Pending.mark [d]).extend c = none := by
  obtain ⟨honly, hslash, hdot⟩ := h
  have hnot : [d, c] ∉ C.marks := fun hmem => by simpa using honly _ hmem rfl
  simp [Pending.extend, hnot, hslash, hdot]

/-- A mark of two characters that begins no other one is not continued. -/
theorem extend_pair {d e : Char} (h : ∀ m ∈ C.marks, m.take 2 = [d, e] → m = [d, e]) (c : Char) :
    (Pending.mark [e, d]).extend c = none := by
  have hnot : [d, e, c] ∉ C.marks := fun hmem => by simpa using h _ hmem rfl
  simp [Pending.extend, hnot]

/-- A text that is an operand. -/
theorem scans_operand {t : C.Token} (ht : tokens x = [t]) : C.Scans x [t] (after x) :=
  ⟨ht, rfl⟩

theorem scans_preamble :
    C.Scans Fragment.preamble.text Fragment.preamble.tokens .none :=
  (ofList _ : C.Scans "/* PL/0 compiler output */\n" [] .none)
    |>.line (ofList _ : C.Scans "\n" [] .none)
    |>.line (ofList _ : C.Scans "#include <errno.h>\n" [.directive "#include <errno.h>"] .none)
    |>.line (ofList _ : C.Scans "#include <stdio.h>\n" [.directive "#include <stdio.h>"] .none)
    |>.line (ofList _ : C.Scans "#include <stdlib.h>\n" [.directive "#include <stdlib.h>"] .none)
    |>.line (ofList _ : C.Scans "#include <string.h>\n" [.directive "#include <string.h>"] .none)
    |>.line (ofList _ : C.Scans "\n" [] .none)
    |>.line (ofList _ : C.Scans "static char __stdin[24];\n" [.word "static", .word "char",
      .word "__stdin", .mark "[", .number "24", .mark "]", .mark ";"] .none)
    |>.line (ofList _ : C.Scans "static long __writestridx;\n" [.word "static", .word "long",
      .word "__writestridx", .mark ";"] .none)
    |>.line (ofList _ : C.Scans "\n" [] .none)
    |>.line (ofList _ : C.Scans "static long\n" [.word "static", .word "long"] .none)
    |>.line (ofList _ : C.Scans "__pl0_parse_int(const char *text)\n"
      [.word "__pl0_parse_int", .mark "(", .word "const", .word "char", .mark "*", .word "text",
        .mark ")"] .none)
    |>.line (ofList _ : C.Scans "\x7b\n" [.mark "\x7b"] .none)
    |>.line (ofList _ : C.Scans "\tchar *end;\n"
      [.word "char", .mark "*", .word "end", .mark ";"] .none)
    |>.line (ofList _ : C.Scans "\tlong value;\n" [.word "long", .word "value", .mark ";"] .none)
    |>.line (ofList _ : C.Scans "\n" [] .none)
    |>.line (ofList _ : C.Scans "\terrno = 0;\n"
      [.word "errno", .mark "=", .number "0", .mark ";"] .none)
    |>.line (ofList _ : C.Scans "\tvalue = strtol(text, &end, 10);\n" [.word "value", .mark "=",
      .word "strtol", .mark "(", .word "text", .mark ",", .mark "&", .word "end", .mark ",",
      .number "10", .mark ")", .mark ";"] .none)
    |>.line (ofList _ : C.Scans "\tif (errno != 0 || end == text || *end != '\\0') \x7b\n"
      [.word "if", .mark "(", .word "errno", .mark "!=", .number "0", .mark "||", .word "end",
        .mark "==", .word "text", .mark "||", .mark "*", .word "end", .mark "!=", .quoted "'\\0'",
        .mark ")", .mark "\x7b"] .none)
    |>.line (ofList _ : C.Scans "\t\t(void) fprintf(stderr, \"invalid number: %s\\n\", text);\n" [
      .mark "(", .word "void", .mark ")", .word "fprintf", .mark "(", .word "stderr", .mark ",",
      .quoted "\"invalid number: %s\\n\"", .mark ",", .word "text", .mark ")", .mark ";"] .none)
    |>.line (ofList _ : C.Scans "\t\texit(1);\n" [.word "exit", .mark "(", .number "1", .mark ")",
      .mark ";"] .none)
    |>.line (ofList _ : C.Scans "\t\x7d\n" [.mark "\x7d"] .none)
    |>.line (ofList _ : C.Scans "\n" [] .none)
    |>.line (ofList _ : C.Scans "\treturn value;\n"
      [.word "return", .word "value", .mark ";"] .none)
    |>.line (ofList _ : C.Scans "\x7d\n" [.mark "\x7d"] .none)
    |>.line (ofList _ : C.Scans "\n" [] .none)

theorem scans_trailer : C.Scans Fragment.trailer.text [] .none := by
  -- The parts of the comment are not closed, so they are scanned as one text.
  have hparts (cs ds es : List Char) : C.Scans
      (String.ofList cs ++ String.ofList ds ++ String.ofList es)
      ((C.scan .none (cs ++ ds ++ es)).1 ++ (C.scan .none (cs ++ ds ++ es)).2.flush)
      (C.scan .none (cs ++ ds ++ es)).2 := by
    rw [← String.ofList_append, ← String.ofList_append]
    exact ofList (cs ++ ds ++ es)
  exact hparts _ _ _

theorem scans_constantHead (hx : IsWord x) :
    C.Scans (Fragment.constantHead x).text (Fragment.constantHead x).tokens (.mark ['=']) :=
  around (ofList _ : C.Scans "const long " [.word "const", .word "long"] .none) (fun _ _ => rfl)
    (.inl hx) (C.tokens_word hx) (ofList _ : C.Scans "=" [.mark "="] (.mark ['=']))
    ⟨'=', rfl, by decide⟩

theorem scans_constantValue {n : Int} (hn : 0 ≤ n) :
    C.Scans (Fragment.constantValue n).text (Fragment.constantValue n).tokens .none :=
  append_text (scans_operand (C.tokens_decimal hn)) (.inr ⟨n, hn, rfl⟩)
    (ofList _ : C.Scans ";\n" [.mark ";"] .none) ⟨';', rfl, by decide⟩

theorem scans_variableHead (hx : IsWord x) :
    C.Scans (Fragment.variableHead x).text (Fragment.variableHead x).tokens (after x) :=
  append_operand (ofList _ : C.Scans "long " [.word "long"] .none) (fun _ _ => rfl) (.inl hx)
    (C.tokens_word hx)

theorem scans_arrayBound (n : Nat) :
    C.Scans (Fragment.arrayBound n).text (Fragment.arrayBound n).tokens (.mark [']']) :=
  around (ofList _ : C.Scans "[" [.mark "["] (.mark ['['])) (fun c _ => extend_alone (by decide) c)
    (isOperand_decimal n) (C.tokens_decimal (Int.natCast_nonneg n))
    (ofList _ : C.Scans "]" [.mark "]"] (.mark [']'])) ⟨']', rfl, by decide⟩

theorem scans_procedureHead (hx : IsWord x) :
    C.Scans (Fragment.procedureHead x).text (Fragment.procedureHead x).tokens .none :=
  around (ofList _ : C.Scans "void\n" [.word "void"] .none) (fun _ _ => rfl) (.inl hx)
    (C.tokens_word hx)
    (ofList _ : C.Scans "(void)\n\x7b\n" [.mark "(", .word "void", .mark ")", .mark "\x7b"] .none)
    ⟨'(', rfl, by decide⟩

theorem scans_call (hx : IsWord x) :
    C.Scans (Fragment.call x).text (Fragment.call x).tokens .none :=
  append_text (scans_operand (C.tokens_word hx)) (.inl hx)
    (ofList _ : C.Scans "();\n" [.mark "(", .mark ")", .mark ";"] .none) ⟨'(', rfl, by decide⟩

theorem scans_print (form : Form) {o : Operand} (ho : o.WellFormed) :
    C.Scans (Fragment.print form o).text (Fragment.print form o).tokens (.mark [';']) := by
  cases form with
  | decimal =>
    exact around (ofList _ : C.Scans "(void) fprintf(stdout, \"%ld\", (long) " [.mark "(",
      .word "void", .mark ")", .word "fprintf", .mark "(", .word "stdout", .mark ",",
      .quoted "\"%ld\"", .mark ",", .mark "(", .word "long", .mark ")"] .none) (fun _ _ => rfl)
      ho.isOperand ho.tokens_text (ofList _ : C.Scans ");" [.mark ")", .mark ";"] (.mark [';']))
      ⟨')', rfl, by decide⟩
  | character =>
    exact around (ofList _ : C.Scans "(void) fprintf(stdout, \"%c\", (unsigned char) " [.mark "(",
      .word "void", .mark ")", .word "fprintf", .mark "(", .word "stdout", .mark ",",
      .quoted "\"%c\"", .mark ",", .mark "(", .word "unsigned", .word "char", .mark ")"] .none)
      (fun _ _ => rfl) ho.isOperand ho.tokens_text
      (ofList _ : C.Scans ");" [.mark ")", .mark ";"] (.mark [';'])) ⟨')', rfl, by decide⟩

theorem scans_readDecimal (hx : IsWord x) :
    C.Scans (Fragment.read .decimal x).text (Fragment.read .decimal x).tokens (.mark [';']) := by
  have hline : C.Scans
      "if(fgets(__stdin, sizeof(__stdin), stdin) == NULL)__stdin[0] = '\\0';\n"
      [.word "if", .mark "(", .word "fgets", .mark "(", .word "__stdin", .mark ",", .word "sizeof",
        .mark "(", .word "__stdin", .mark ")", .mark ",", .word "stdin", .mark ")", .mark "==",
        .word "NULL", .mark ")", .word "__stdin", .mark "[", .number "0", .mark "]", .mark "=",
        .quoted "'\\0'", .mark ";"] .none := ofList _
  have htest : C.Scans "if(__stdin[0] != '\\0' && __stdin[strlen(__stdin) - 1] == '\\n')"
      [.word "if", .mark "(", .word "__stdin", .mark "[", .number "0", .mark "]", .mark "!=",
        .quoted "'\\0'", .mark "&&", .word "__stdin", .mark "[", .word "strlen", .mark "(",
        .word "__stdin", .mark ")", .mark "-", .number "1", .mark "]", .mark "==",
        .quoted "'\\n'", .mark ")"] (.mark [')']) := ofList _
  have hcut : C.Scans "__stdin[strlen(__stdin) - 1] = '\\0';\n"
      [.word "__stdin", .mark "[", .word "strlen", .mark "(", .word "__stdin", .mark ")",
        .mark "-", .number "1", .mark "]", .mark "=", .quoted "'\\0'", .mark ";"] .none := ofList _
  have hstore : C.Scans "=__pl0_parse_int(__stdin);" [.mark "=", .word "__pl0_parse_int",
      .mark "(", .word "__stdin", .mark ")", .mark ";"] (.mark [';']) := ofList _
  exact around ((hline.append_settled (fun _ => rfl) htest (by decide)).append_settled
    (extend_alone (by decide)) hcut (by decide)) (fun _ _ => rfl) (.inl hx) (C.tokens_word hx)
      hstore
    ⟨'=', rfl, by decide⟩

theorem scans_readCharacter (hx : IsWord x) :
    C.Scans (Fragment.read .character x).text (Fragment.read .character x).tokens (.mark [';']) :=
  append_text (scans_operand (C.tokens_word hx)) (.inl hx)
    (ofList _ : C.Scans "=(int) fgetc(stdin);" [.mark "=", .mark "(", .word "int", .mark ")",
      .word "fgetc", .mark "(", .word "stdin", .mark ")", .mark ";"] (.mark [';']))
    ⟨'=', rfl, by decide⟩

theorem scans_printArray (hx : IsWord x) (n : Nat) :
    C.Scans (Fragment.printArray x n).text (Fragment.printArray x n).tokens (.mark [';']) := by
  have hstart : C.Scans "__writestridx = 0;\n"
      [.word "__writestridx", .mark "=", .number "0", .mark ";"] .none := ofList _
  have hhead : C.Scans "while(__writestridx<"
      [.word "while", .mark "(", .word "__writestridx", .mark "<"] (.mark ['<']) := ofList _
  have hand : C.Scans "&&" [.mark "&&"] (.mark ['&', '&']) := ofList _
  have htest : C.Scans "[__writestridx]!='\\0')\n" [.mark "[", .word "__writestridx", .mark "]",
      .mark "!=", .quoted "'\\0'", .mark ")"] .none := ofList _
  have hput : C.Scans "(void) putchar((unsigned char) " [.mark "(", .word "void", .mark ")",
      .word "putchar", .mark "(", .mark "(", .word "unsigned", .word "char", .mark ")"] .none :=
    ofList _
  have hnext : C.Scans "[__writestridx++]);" [.mark "[", .word "__writestridx", .mark "++",
      .mark "]", .mark ")", .mark ";"] (.mark [';']) := ofList _
  have hbound := around (hstart.append_settled (fun _ => rfl) hhead (by decide))
    (fun c hc => C.extend_mark_of_isWordPart (by decide) hc) (isOperand_decimal n)
    (C.tokens_decimal (Int.natCast_nonneg n)) hand ⟨'&', rfl, by decide⟩
  have hloop := around hbound (fun c _ => extend_pair (by decide) c) (.inl hx) (C.tokens_word hx)
    htest ⟨'[', rfl, by decide⟩
  exact around (hloop.append_settled (fun _ => rfl) hput (by decide)) (fun _ _ => rfl) (.inl hx)
    (C.tokens_word hx) hnext ⟨'[', rfl, by decide⟩

theorem scans_printText (content : String) :
    C.Scans (Fragment.printText content).text (Fragment.printText content).tokens
      (.mark [';']) := by
  have hliteral : C.Scans (Text.cString content) [.quoted (Text.cString content)]
      (.closed (Text.cString content).toList.reverse) :=
    ⟨C.tokens_cString content, C.after_cString content⟩
  have hne : Text.cString content ≠ "" := fun h => by
    have := congrArg String.toList h
    simp [Text.cString] at this
  exact ((ofList _ : C.Scans "(void) fputs(" [.mark "(", .word "void", .mark ")", .word "fputs",
    .mark "("] (.mark ['('])).append_settled (extend_alone (by decide)) hliteral hne).append_settled
      (fun _ => rfl) (ofList _ : C.Scans ", stdout);" [.mark ",", .word "stdout", .mark ")",
        .mark ";"] (.mark [';'])) (by decide)

theorem scans_mark {m : Mark} (h : (Fragment.mark m).WellFormed) :
    C.Scans (Fragment.mark m).text (Fragment.mark m).tokens (.mark m.spelling.toList) := by
  cases m with
  | becomes | equals | differs | comma | dot | semicolon => simp [Fragment.WellFormed] at h
  | _ => exact ofList _

end Templates

/-! ### Fragments one behind the other -/

namespace Fragment

variable {f : Fragment}

/-- A fragment has its tokens, and ends as it should. -/
theorem WellFormed.scans (h : f.WellFormed) :
    ∃ p, C.Scans f.text f.tokens p ∧ f.ending.Admits p := by
  have hsemicolon : Ending.settled.Admits (.mark [';']) :=
    Ending.settled_admits (extend_alone (by decide))
  have hnone : Ending.settled.Admits .none := Ending.settled_admits fun _ => rfl
  cases f with
  | preamble => exact ⟨_, scans_preamble, hnone⟩
  | trailer =>
    exact ⟨.none, scans_trailer, hnone⟩
  | constantHead x =>
    exact ⟨_, scans_constantHead h, Ending.operator_admits (by decide) (by decide)⟩
  | constantValue n => exact ⟨_, scans_constantValue h, hnone⟩
  | variableHead x =>
    exact ⟨_, scans_variableHead h,
      Ending.operand_admits fun _ => C.IsOperand.extend_after (.inl h)⟩
  | arrayBound n =>
    exact ⟨_, scans_arrayBound n, Ending.operand_admits fun c _ => extend_alone (by decide) c⟩
  | variableEnd => exact ⟨.none, C.Scans.ofList _, hnone⟩
  | variablesEnd => exact ⟨.none, C.Scans.ofList _, hnone⟩
  | procedureHead p => exact ⟨_, scans_procedureHead h, hnone⟩
  | mainHead => exact ⟨.none, C.Scans.ofList _, hnone⟩
  | bodyEnd b => cases b <;> exact ⟨.none, C.Scans.ofList _, hnone⟩
  | name x =>
    exact ⟨_, scans_operand (C.tokens_word h),
      Ending.operand_admits fun _ => C.IsOperand.extend_after (.inl h)⟩
  | number n =>
    exact ⟨_, scans_operand (C.tokens_decimal h),
      Ending.operand_admits fun _ => C.IsOperand.extend_after (.inr ⟨n, h, rfl⟩)⟩
  | mark m =>
    refine ⟨_, scans_mark h, ?_⟩
    cases m with
    | plus | minus => exact Ending.sign_admits (by decide) (by decide)
    | rightParen | rightBracket => exact Ending.operand_admits fun c _ => extend_alone (by decide) c
    | becomes | equals | differs | comma | dot | semicolon => simp [WellFormed] at h
    | _ => exact Ending.operator_admits (by decide) (by decide)
  | assign => exact ⟨.mark ['='], C.Scans.ofList _, Ending.operator_admits (by decide) (by decide)⟩
  | equal =>
    exact ⟨.mark ['=', '='], C.Scans.ofList _, Ending.operator_admits (by decide) (by decide)⟩
  | unequal =>
    exact ⟨.mark ['=', '!'], C.Scans.ofList _, Ending.operator_admits (by decide) (by decide)⟩
  | oddHead => exact ⟨.mark ['('], C.Scans.ofList _, Ending.operator_admits (by decide) (by decide)⟩
  | oddEnd =>
    have hone : IsOperand "1" := .inr ⟨1, by decide, rfl⟩
    exact ⟨after "1", C.Scans.ofList _, Ending.operand_admits fun _ => hone.extend_after⟩
  | call p => exact ⟨_, scans_call h, hnone⟩
  | blockHead => exact ⟨.none, C.Scans.ofList _, hnone⟩
  | blockNext => exact ⟨.none, C.Scans.ofList _, hnone⟩
  | blockEnd => exact ⟨.none, C.Scans.ofList _, hnone⟩
  | ifHead => exact ⟨.mark ['('], C.Scans.ofList _, Ending.operator_admits (by decide) (by decide)⟩
  | whileHead =>
    exact ⟨.mark ['('], C.Scans.ofList _, Ending.operator_admits (by decide) (by decide)⟩
  | conditionEnd => exact ⟨.none, C.Scans.ofList _, hnone⟩
  | print form o => exact ⟨_, scans_print form h, hsemicolon⟩
  | read form x =>
    cases form with
    | decimal => exact ⟨_, scans_readDecimal h, hsemicolon⟩
    | character => exact ⟨_, scans_readCharacter h, hsemicolon⟩
  | printArray x n => exact ⟨_, scans_printArray h n, hsemicolon⟩
  | printText content => exact ⟨_, scans_printText content, hsemicolon⟩

/-- The text of a fragment has its tokens. -/
theorem WellFormed.tokens_text (h : f.WellFormed) : C.tokens f.text = f.tokens := by
  obtain ⟨_, hscans, -⟩ := h.scans
  exact hscans.tokens_eq

end Fragment

/-- The text begins with a character that the kind of beginning admits. -/
def Beginning.Opens (b : Beginning) (text : String) : Prop :=
  ∃ c cs, text.toList = c :: cs ∧ b.Admits c

namespace Beginning.Opens

variable {b : Beginning} {text : String}

theorem ofList {c : Char} {cs : List Char} (h : b.Admits c) : b.Opens (String.ofList (c :: cs)) :=
  ⟨c, cs, String.toList_ofList, h⟩

theorem append (h : b.Opens text) (more : String) : b.Opens (text ++ more) := by
  obtain ⟨c, cs, htext, hc⟩ := h
  exact ⟨c, cs ++ more.toList, by simp [htext], hc⟩

theorem operand (h : IsOperand text) : word.Opens text := h.toList

theorem ne_empty (h : b.Opens text) : text ≠ "" := by
  obtain ⟨c, cs, htext, -⟩ := h
  rintro rfl
  simp at htext

end Beginning.Opens

open Beginning in
/-- A fragment begins as it should. -/
theorem Fragment.WellFormed.opens {f : Fragment} (h : f.WellFormed) : f.beginning.Opens f.text := by
  have hword {c : Char} (cs : List Char) (hc : isWordPart c) :
      word.Opens (String.ofList (c :: cs)) := .ofList hc
  have hother {c : Char} (cs : List Char)
      (hc : c ∈ ['[', ']', ')', '*', '/', '=', '!', '<', '>', ';', '\x7b', '\n']) :
      other.Opens (String.ofList (c :: cs)) := .ofList hc
  have hparen (cs : List Char) : paren.Opens (String.ofList ('(' :: cs)) := .ofList rfl
  cases f with
  | preamble =>
    iterate 25 refine Opens.append ?_ _
    exact hother _ (by decide)
  | trailer => exact ((hother _ (by decide)).append _).append _
  | constantHead x => exact ((hword _ (by decide)).append _).append _
  | constantValue n => exact (Opens.operand (.inr ⟨n, h, rfl⟩)).append _
  | variableHead x => exact (hword _ (by decide)).append _
  | procedureHead p => exact ((hword _ (by decide)).append _).append _
  | arrayBound n => exact ((hother _ (by decide)).append _).append _
  | mainHead | ifHead | whileHead => exact hword _ (by decide)
  | bodyEnd b => cases b <;> exact hother _ (by decide)
  | name x => exact Opens.operand (.inl h)
  | number n => exact Opens.operand (.inr ⟨n, h, rfl⟩)
  | call p => exact (Opens.operand (.inl h)).append _
  | oddHead => exact hparen _
  | print form o => cases form <;> exact ((hparen _).append _).append _
  | printText content => exact ((hparen _).append _).append _
  | read form x =>
    cases form with
    | decimal =>
      iterate 4 refine Opens.append ?_ _
      exact hword _ (by decide)
    | character => exact (Opens.operand (.inl h)).append _
  | printArray x n =>
    iterate 8 refine Opens.append ?_ _
    exact hword _ (by decide)
  | mark m =>
    cases m with
    | plus => exact Opens.ofList (.inl rfl)
    | minus => exact Opens.ofList (.inr rfl)
    | leftParen => exact hparen _
    | becomes | equals | differs | comma | dot | semicolon => simp [Fragment.WellFormed] at h
    | _ => exact hother _ (by decide)
  | _ => exact hother _ (by decide)

/-- The tokens of fragments one behind the other. -/
def cTokens (fs : List Fragment) : List C.Token := fs.flatMap Fragment.tokens

@[simp]
theorem cTokens_nil : cTokens [] = [] := rfl

@[simp]
theorem cTokens_cons (f : Fragment) (fs : List Fragment) :
    cTokens (f :: fs) = f.tokens ++ cTokens fs := rfl

@[simp]
theorem cTokens_append (fs gs : List Fragment) : cTokens (fs ++ gs) = cTokens fs ++ cTokens gs :=
  List.flatMap_append

/-- Well formed fragments behind a first ending, of which each fits behind the one in front of it,
and the ending of the last one. -/
inductive Joined : Ending → List Fragment → Ending → Prop
  | nil (e : Ending) : Joined e [] e
  | cons {e e' : Ending} {f : Fragment} {fs : List Fragment} (fits : e.Fits f.beginning)
      (wellFormed : f.WellFormed) (more : Joined f.ending fs e') : Joined e (f :: fs) e'

namespace Joined

variable {e e' e'' : Ending} {f : Fragment} {fs gs : List Fragment}

theorem single (fits : e.Fits f.beginning) (wellFormed : f.WellFormed) :
    Joined e [f] f.ending :=
  .cons fits wellFormed (.nil _)

theorem append (h : Joined e fs e') (h' : Joined e' gs e'') : Joined e (fs ++ gs) e'' := by
  induction h with
  | nil => exact h'
  | cons fits wellFormed _ ih => exact .cons fits wellFormed (ih h')

theorem of_append (h : Joined e (fs ++ gs) e'') : ∃ e', Joined e fs e' ∧ Joined e' gs e'' := by
  induction fs generalizing e with
  | nil => exact ⟨e, .nil e, h⟩
  | cons f fs ih =>
    obtain ⟨⟩ | ⟨fits, wellFormed, more⟩ := h
    obtain ⟨e', hfs, hgs⟩ := ih more
    exact ⟨e', .cons fits wellFormed hfs, hgs⟩

theorem wellFormed (h : Joined e fs e') : ∀ f ∈ fs, f.WellFormed := by
  induction h with
  | nil => exact List.forall_mem_nil _
  | cons _ wellFormed _ ih => exact List.forall_mem_cons.mpr ⟨wellFormed, ih⟩

/-- What is joined to a fragment does not continue its last lexeme. -/
theorem breaks (wellFormed : f.WellFormed) (more : Joined f.ending fs e') :
    Breaks f.text (codeOf fs) := by
  obtain ⟨p, hscans, hadmits⟩ := wellFormed.scans
  intro c hc
  cases more with
  | nil => simp at hc
  | cons fits wellFormed' _ =>
    obtain ⟨d, ds, htext, hd⟩ := wellFormed'.opens
    obtain rfl : d = c := by simpa [htext] using hc
    exact hscans.after_eq ▸ hadmits _ d fits hd

/-- **Joined fragments keep their tokens.** -/
theorem tokens_codeOf (h : Joined e fs e') : tokens (codeOf fs) = cTokens fs := by
  induction h with
  | nil => rfl
  | cons _ wellFormed more ih =>
    rw [codeOf_cons, C.tokens_append (more.breaks wellFormed), wellFormed.tokens_text, ih,
      cTokens_cons]

/-- What fits behind joined fragments does not continue their last lexeme. -/
theorem admits (h : Joined e fs e') : e'.Admits (after (codeOf fs)) := by
  induction h with
  | nil => exact fun _ _ _ _ => rfl
  | @cons _ _ f fs _ wellFormed more ih =>
    rw [codeOf_cons]
    cases more with
    | nil =>
      obtain ⟨p, hscans, hadmits⟩ := wellFormed.scans
      rw [codeOf_nil, String.append_empty, hscans.after_eq]
      exact hadmits
    | @cons _ _ g gs fits wellFormed' more' =>
      have hmore : Joined f.ending (g :: gs) _ := .cons fits wellFormed' more'
      have hne : codeOf (g :: gs) ≠ "" := by
        rw [codeOf_cons]
        exact (wellFormed'.opens.append _).ne_empty
      rw [C.after_append (hmore.breaks wellFormed) hne]
      exact ih

end Joined

end PlZero
