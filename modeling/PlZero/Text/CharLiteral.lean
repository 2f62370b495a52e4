import PlZero.Text.GraphemeExtend
import PlZero.Text.Unprintable

/-!
# Single characters in messages

A message shows a character between single quotes. The quote, the backslash and the usual
controls have names of two characters. A character that could not be told from the quotes
around it (`isShownByNumber`) is shown by its number in hexadecimal digits: one without a
shape of its own, one that may be left invisible, or one that merges with the character
before it. So the text of a character never holds a line feed
(`newline_not_mem_charLiteral`).
-/

namespace PlZero.Text

/-- The code points of the characters with the property Default_Ignorable_Code_Point of Unicode
17.0, as closed ranges in ascending order: controls of layout, selectors of variants, and the
fillers of Hangul, which count as letters. A reader may see nothing of them. -/
def defaultIgnorableRanges : Array (Nat × Nat) :=
  #[(0xad, 0xad), (0x34f, 0x34f), (0x61c, 0x61c), (0x115f, 0x1160), (0x17b4, 0x17b5),
    (0x180b, 0x180f), (0x200b, 0x200f), (0x202a, 0x202e), (0x2060, 0x206f), (0x3164, 0x3164),
    (0xfe00, 0xfe0f), (0xfeff, 0xfeff), (0xffa0, 0xffa0), (0xfff0, 0xfff8),
    (0x1bca0, 0x1bca3), (0x1d173, 0x1d17a), (0xe0000, 0xe0fff)]

/-- Whether `c` may be left invisible. -/
def isDefaultIgnorable (c : Char) : Bool :=
  defaultIgnorableRanges.any fun range => range.1 ≤ c.toNat && c.toNat ≤ range.2

/-- The two halfwidth sound marks of Katakana. They belong to the letter before them, but
stand in a cell of their own. -/
def isHalfwidthSoundMark (c : Char) : Bool :=
  c = '\uff9e' || c = '\uff9f'

/-- Whether `c` merges with the character before it. -/
def isCombining (c : Char) : Bool :=
  isGraphemeExtend c && !isHalfwidthSoundMark c

/-- Whether a message shows `c` by its number. -/
def isShownByNumber (c : Char) : Bool :=
  isCombining c || isDefaultIgnorable c || isUnprintable c

/-- A character by its number. -/
def byNumber (c : Char) : List Char :=
  ['\\', 'u', '{'] ++ Nat.toDigits 16 c.toNat ++ ['}']

/-- A character as it stands between the quotes. -/
def escapeChar (c : Char) : List Char :=
  if c = '\x00' then ['\\', '0']
  else if c = '\t' then ['\\', 't']
  else if c = '\r' then ['\\', 'r']
  else if c = '\n' then ['\\', 'n']
  else if c = '\'' then ['\\', '\'']
  else if c = '\\' then ['\\', '\\']
  else if isShownByNumber c then byNumber c
  else [c]

/-- A character between quotes. -/
def charLiteral (c : Char) : String :=
  String.ofList ('\'' :: escapeChar c ++ ['\''])

theorem newline_not_mem_toDigits (n : Nat) : '\n' ∉ Nat.toDigits 16 n := by
  induction n using Nat.strongRecOn with
  | ind n ih =>
    rw [Nat.toDigits_eq_if (by decide)]
    split
    · simp
    · simp [ih (n / 16) (by omega)]

theorem newline_not_mem_byNumber (c : Char) : '\n' ∉ byNumber c := by
  simp [byNumber, newline_not_mem_toDigits]

theorem newline_not_mem_escapeChar (c : Char) : '\n' ∉ escapeChar c := by
  have := newline_not_mem_byNumber c
  grind [escapeChar]

theorem newline_not_mem_charLiteral (c : Char) : '\n' ∉ (charLiteral c).toList := by
  simp [charLiteral, newline_not_mem_escapeChar]

end PlZero.Text
