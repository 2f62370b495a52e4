import Mathlib.Algebra.Ring.Parity
import PlZero.Proofs.C.Literals

/-!
# String literals are well formed

The literal that is written for a text begins and ends with a quote, and what stands in between is
printable (`C.WellQuoted`). The bytes of the text are written one behind the other, and none of them
leaves a backslash behind that would escape what follows (`C.not_escapes_append`), while the quotes
and question marks among them are escaped (`C.escapes_of_mem`). So the literal ends with its last
quote only, and no two question marks in it stand side by side, as they do in a trigraph.

Since a literal stands for the bytes of its text (`C.bytes_cString`), different texts have different
literals (`string_literal_of_text`).
-/

namespace PlZero

namespace C

/-! ### Backslashes -/

/-- How many backslashes a text ends with. -/
def slashes (cs : List Char) : Nat := (cs.reverse.takeWhile (· = '\\')).length

/-- Whatever follows the text is escaped: of the backslashes that the text ends with, each second
one is escaped itself, so an odd number of them escapes what follows. -/
def Escapes (cs : List Char) : Prop := Odd (slashes cs)

theorem not_escapes_nil : ¬ Escapes [] := by simp [Escapes, slashes]

theorem escapes_concat {cs : List Char} {c : Char} :
    Escapes (cs ++ [c]) ↔ c = '\\' ∧ ¬ Escapes cs := by
  by_cases hc : c = '\\'
  · simp [Escapes, slashes, hc, Nat.odd_add_one]
  · simp [Escapes, slashes, hc]

/-! ### Single bytes -/

/-- The digits of a byte are digits. -/
theorem isDigit_of_mem_octal {b : UInt8} {c : Char} (h : c ∈ Text.octal b) : c.isDigit := by
  have hb := b.toNat_lt
  have hdigit (n : Nat) (hn : n < 10) : (Nat.digitChar n).isDigit = true := by simp [hn]
  simp only [Text.octal, List.mem_cons, List.not_mem_nil, or_false] at h
  rcases h with rfl | rfl | rfl <;> exact hdigit _ (by omega)

/-- **The characters of a byte do not escape what follows**, if they are not escaped themselves. -/
theorem not_escapes_append {front : List Char} (h : ¬ Escapes front) {b : UInt8}
    {unit : List Char} (hunit : Text.EscapedAs b unit) : ¬ Escapes (front ++ unit) := by
  cases hunit with
  | plain printable ne =>
    rw [escapes_concat]
    exact fun hslash => Text.ofUInt8_ne ne.2.1 hslash.1
  | @named c mem =>
    have hslash : Escapes (front ++ ['\\']) := escapes_concat.mpr ⟨rfl, h⟩
    rw [List.append_cons, escapes_concat]
    exact fun hescapes => hescapes.2 hslash
  | octal =>
    obtain ⟨digits, c, hc⟩ : ∃ digits c, Text.octal b = digits ++ [c] := ⟨[_, _], _, rfl⟩
    have hdigit : c.isDigit := isDigit_of_mem_octal (hc ▸ List.mem_append_right digits (by simp))
    rw [hc, ← List.cons_append, ← List.append_assoc, escapes_concat]
    rintro ⟨rfl, -⟩
    exact absurd hdigit (by decide)

/-- A quote or a question mark among the characters of a byte is escaped. -/
theorem escapes_of_mem {front : List Char} (h : ¬ Escapes front) {b : UInt8}
    {unit : List Char} (hunit : Text.EscapedAs b unit) {before after : List Char} {c : Char}
    (hc : c = '"' ∨ c = '?') (hsplit : unit = before ++ c :: after) :
    Escapes (front ++ before) := by
  have hdigit : c.isDigit = false := by rcases hc with rfl | rfl <;> rfl
  have hslash : c ≠ '\\' := by rcases hc with rfl | rfl <;> decide
  cases hunit with
  | plain printable ne =>
    obtain rfl : Char.ofUInt8 b = c := by
      cases before <;> simp_all
    rcases hc with hc | hc
    · exact absurd hc (Text.ofUInt8_ne ne.1)
    · exact absurd hc (Text.ofUInt8_ne ne.2.2)
  | named mem =>
    rcases List.cons_eq_append_iff.mp hsplit with ⟨rfl, hfirst⟩ | ⟨rest, rfl, hrest⟩
    · exact absurd (List.cons.inj hfirst).1 hslash
    · obtain rfl : rest = [] := by cases rest <;> simp_all
      exact escapes_concat.mpr ⟨rfl, h⟩
  | octal =>
    have hmem : c ∈ '\\' :: Text.octal b := by simp [hsplit]
    rcases List.mem_cons.mp hmem with rfl | hmem
    · exact absurd rfl hslash
    · rw [isDigit_of_mem_octal hmem] at hdigit
      cases hdigit

/-- The characters of a byte are printable. -/
theorem printable_of_mem {b : UInt8} {unit : List Char} (hunit : Text.EscapedAs b unit) :
    ∀ c ∈ unit, ∃ b : UInt8, (32 ≤ b ∧ b ≤ 126) ∧ c = Char.ofUInt8 b := by
  have hslash : ∃ b : UInt8, (32 ≤ b ∧ b ≤ 126) ∧ '\\' = Char.ofUInt8 b := ⟨92, by decide, rfl⟩
  cases hunit with
  | plain printable ne =>
    exact List.forall_mem_singleton.mpr ⟨_, printable, rfl⟩
  | named mem =>
    refine List.forall_mem_cons.mpr ⟨hslash, List.forall_mem_singleton.mpr ?_⟩
    simp only [List.mem_cons, Prod.mk.injEq, List.not_mem_nil, or_false] at mem
    rcases mem with ⟨-, rfl⟩ | ⟨-, rfl⟩ | ⟨-, rfl⟩
    · exact ⟨34, by decide, rfl⟩
    · exact hslash
    · exact ⟨63, by decide, rfl⟩
  | octal =>
    have hdigit (n : Nat) (hn : n < 8) :
        ∃ b : UInt8, (32 ≤ b ∧ b ≤ 126) ∧ Nat.digitChar n = Char.ofUInt8 b := by
      refine ⟨UInt8.ofNat (48 + n), ?_⟩
      decide +revert
    have hb := b.toNat_lt
    refine List.forall_mem_cons.mpr ⟨hslash, ?_⟩
    simp only [Text.octal, List.forall_mem_cons]
    exact ⟨hdigit _ (by omega), hdigit _ (by omega), hdigit _ (by omega), List.forall_mem_nil _⟩

/-! ### All bytes of a text -/

theorem not_escapes_bytes {front : List Char} (h : ¬ Escapes front) (bytes : List UInt8) :
    ¬ Escapes (front ++ bytes.flatMap Text.escapeByte) := by
  induction bytes generalizing front with
  | nil => simpa using h
  | cons b bytes ih =>
    rw [List.flatMap_cons, ← List.append_assoc]
    exact ih (not_escapes_append h (Text.escapedAs_escapeByte b))

/-- **Every quote and every question mark among the characters of bytes is escaped.** -/
theorem escapes_of_bytes {front : List Char} (h : ¬ Escapes front) {bytes : List UInt8}
    {before after : List Char} {c : Char} (hc : c = '"' ∨ c = '?')
    (hsplit : bytes.flatMap Text.escapeByte = before ++ c :: after) :
    Escapes (front ++ before) := by
  induction bytes generalizing front before with
  | nil => simp at hsplit
  | cons b bytes ih =>
    have hunit := Text.escapedAs_escapeByte b
    rw [List.flatMap_cons] at hsplit
    rcases List.append_eq_append_iff.mp hsplit with ⟨later, rfl, hrest⟩ | ⟨more, hfirst, hrest⟩
    · rw [← List.append_assoc]
      exact ih (not_escapes_append h hunit) hrest
    · cases more with
      | nil =>
        -- The character is the first one of the bytes that follow.
        obtain rfl : Text.escapeByte b = before := by simpa using hfirst
        have hnext : Escapes (front ++ Text.escapeByte b ++ []) :=
          ih (not_escapes_append h hunit) hrest.symm
        rwa [List.append_nil] at hnext
      | cons d more =>
        obtain ⟨rfl, -⟩ := List.cons.inj hrest
        exact escapes_of_mem h hunit hc hfirst

/-! ### Literals -/

/-- A string literal with this text between its quotes. -/
structure WellQuoted (inner : List Char) (literal : String) : Prop where
  toList_eq : literal.toList = '"' :: (inner ++ ['"'])
  printable : ∀ b ∈ Text.utf8 (String.ofList inner), 32 ≤ b ∧ b ≤ 126
  /-- Each quote in it is escaped. -/
  escapes : ∀ before after, inner = before ++ '"' :: after → Escapes before
  /-- The quote at its end is not. -/
  closes : ¬ Escapes inner
  no_trigraph : ¬ ['?', '?'] <:+: literal.toList

/-- Two question marks in a literal stand between its quotes. -/
theorem question_marks_between_quotes {before after inner : List Char}
    (h : '"' :: (inner ++ ['"']) = before ++ ['?', '?'] ++ after) :
    ∃ before after, inner = (before ++ ['?']) ++ '?' :: after := by
  rw [List.append_assoc, List.cons_eq_append_iff] at h
  rcases h with ⟨-, hfirst⟩ | ⟨front, -, hinner⟩
  · exact absurd (List.cons.inj hfirst).1 (by decide)
  · rcases after.eq_nil_or_concat with rfl | ⟨rest, last, rfl⟩
    · have hlast := congrArg List.getLast? hinner
      simp at hlast
    · have hsame : inner ++ ['"'] = ((front ++ ['?']) ++ '?' :: rest) ++ [last] := by
        simpa using hinner
      exact ⟨front, rest, (List.append_inj' hsame rfl).1⟩

theorem toList_cString (text : String) :
    (Text.cString text).toList = '"' :: ((Text.utf8 text).flatMap Text.escapeByte ++ ['"']) := by
  simp [Text.cString]

theorem wellQuoted_cString (text : String) :
    WellQuoted ((Text.utf8 text).flatMap Text.escapeByte) (Text.cString text) where
  toList_eq := toList_cString text
  printable := by
    intro b hb
    simp only [Text.utf8, String.toList_ofList, List.mem_flatMap] at hb
    obtain ⟨c, ⟨d, -, hc⟩, hb⟩ := hb
    obtain ⟨e, he, rfl⟩ := printable_of_mem (Text.escapedAs_escapeByte d) c hc
    rw [utf8EncodeChar_ofUInt8 he.2, List.mem_singleton] at hb
    exact hb ▸ he
  escapes before after hsplit := by
    simpa using escapes_of_bytes not_escapes_nil (.inl rfl) hsplit
  closes := by
    simpa using not_escapes_bytes not_escapes_nil (Text.utf8 text)
  no_trigraph := by
    rintro ⟨before, after, hsplit⟩
    rw [toList_cString] at hsplit
    obtain ⟨before, after, hinner⟩ := question_marks_between_quotes hsplit.symm
    have hescapes := escapes_of_bytes not_escapes_nil (.inr rfl) hinner
    rw [List.nil_append, escapes_concat] at hescapes
    exact absurd hescapes.1 (by decide)

end C

/-- **Every text has a well-formed string literal of its own.** It is printable between its quotes,
each quote in there is escaped and the one at the end is not, and no two question marks in it stand
side by side. So C reads it as a single token, and the token stands for the bytes of the text;
different texts have different literals. -/
theorem string_literal_of_text :
    (∀ text, (∃ inner, C.WellQuoted inner (Text.cString text)) ∧
      C.tokens (Text.cString text) = [.quoted (Text.cString text)] ∧
      C.bytes? (Text.cString text) = some (Text.utf8 text)) ∧
    Function.Injective Text.cString := by
  refine ⟨fun text => ?_, fun s t h => Text.utf8_injective ?_⟩
  · exact ⟨⟨_, C.wellQuoted_cString text⟩, C.tokens_cString text, C.bytes_cString text⟩
  · have hbytes := congrArg C.bytes? h
    rw [C.bytes_cString, C.bytes_cString] at hbytes
    exact Option.some.inj hbytes

/-- A digit behind an octal escape is no part of it. -/
example : Text.cString "??=\t1\"" = "\"\\?\\?=\\0111\\\"\"" := by decide +kernel

end PlZero
