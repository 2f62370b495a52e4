import PlZero.Text.Utf8

/-!
# String literals of C

A text is written as the string literal whose bytes are the UTF-8 bytes of the text.
Printable ASCII stands for itself, except for the quote and the backslash, which are
escaped, and the question mark, which is escaped so that no two of them make a trigraph.
Every other byte is an octal escape of exactly three digits, so a digit after it cannot
become part of it.
-/

namespace PlZero.Text

/-- A byte in three octal digits. -/
def octal (b : UInt8) : List Char :=
  [Nat.digitChar (b.toNat / 64), Nat.digitChar (b.toNat / 8 % 8), Nat.digitChar (b.toNat % 8)]

/-- A byte as it stands between the quotes of a string literal. -/
def escapeByte (b : UInt8) : List Char :=
  if b = 34 then ['\\', '"']
  else if b = 92 then ['\\', '\\']
  else if b = 63 then ['\\', '?']
  else if 32 ≤ b ∧ b ≤ 126 then [Char.ofUInt8 b]
  else '\\' :: octal b

/-- The characters that a byte is written with: a character behind a backslash, the character that
the byte is, or three digits behind a backslash. -/
inductive EscapedAs (b : UInt8) : List Char → Prop
  | named {c : Char} (mem : (b, c) ∈ [(34, '"'), (92, '\\'), (63, '?')]) : EscapedAs b ['\\', c]
  | plain (printable : 32 ≤ b ∧ b ≤ 126) (ne : b ≠ 34 ∧ b ≠ 92 ∧ b ≠ 63) :
    EscapedAs b [Char.ofUInt8 b]
  | octal : EscapedAs b ('\\' :: Text.octal b)

theorem escapedAs_escapeByte (b : UInt8) : EscapedAs b (escapeByte b) := by
  unfold escapeByte
  by_cases hquote : b = 34
  · rw [if_pos hquote]
    exact .named (by simp [hquote])
  by_cases hslash : b = 92
  · rw [if_neg hquote, if_pos hslash]
    exact .named (by simp [hslash])
  by_cases hquestion : b = 63
  · rw [if_neg hquote, if_neg hslash, if_pos hquestion]
    exact .named (by simp [hquestion])
  rw [if_neg hquote, if_neg hslash, if_neg hquestion]
  split
  · next hprintable => exact .plain hprintable ⟨hquote, hslash, hquestion⟩
  · exact .octal

theorem ofUInt8_ne {b k : UInt8} (h : b ≠ k) : Char.ofUInt8 b ≠ Char.ofUInt8 k := fun heq =>
  h (UInt8.toUInt32_inj.mp (congrArg Char.val heq))

/-- The string literal for a text. -/
def cString (text : String) : String :=
  String.ofList ('"' :: (utf8 text).flatMap escapeByte ++ ['"'])

end PlZero.Text
