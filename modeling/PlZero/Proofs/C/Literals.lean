import Mathlib.Data.List.TakeWhile
import PlZero.Proofs.Written

/-!
# What a string literal of C stands for

The characters between the quotes of a string literal stand for bytes (`C.unescape`): a backslash
begins an escape sequence, which is the name of a character or up to three octal digits. A function
that is given the literal reads its bytes up to the first zero (`C.printed?`).

The literal that is written for a text stands for the bytes of the text (`C.bytes_cString`). So what
is printed for a text is the text itself, unless it holds the character zero
(`printed_of_literal`). The lexer lets that character into a text, and then the rest of the text is
not printed (`printed_of_literal_zero`).
-/

namespace PlZero

namespace C

/-! ### Reading a string literal -/

/-- The character that a letter or a mark behind a backslash names. -/
def namedEscape? : Char → Option UInt8
  | '\'' => some 39
  | '"' => some 34
  | '?' => some 63
  | '\\' => some 92
  | 'a' => some 7
  | 'b' => some 8
  | 'f' => some 12
  | 'n' => some 10
  | 'r' => some 13
  | 't' => some 9
  | 'v' => some 11
  | _ => none

/-- The digits from `0` to `7`. -/
def isOctalDigit (c : Char) : Bool := '0' ≤ c && c ≤ '7'

/-- The octal digits of an escape sequence: as many as there are, but three at most. -/
def octalDigits (cs : List Char) : List Char := (cs.take 3).takeWhile isOctalDigit

/-- The byte that an escape sequence stands for, whose characters behind the backslash begin the
text, and the text behind it. Left out are what no generated text contains: sequences in hexadecimal
digits and those for universal names. -/
def escape? (cs : List Char) : Option (UInt8 × List Char) :=
  if octalDigits cs = [] then
    match cs with
    | [] => none
    | c :: cs => (namedEscape? c).map (·, cs)
  else if Nat.ofDigitChars 8 (octalDigits cs) 0 < 256 then
    some (UInt8.ofNat (Nat.ofDigitChars 8 (octalDigits cs) 0), cs.drop (octalDigits cs).length)
  else none

theorem length_escape?_le {cs rest : List Char} {b : UInt8} (h : escape? cs = some (b, rest)) :
    rest.length ≤ cs.length := by
  rw [escape?.eq_def] at h
  split at h
  · cases cs with
    | nil => cases h
    | cons c cs =>
      obtain ⟨d, -, hpair⟩ := Option.map_eq_some_iff.mp h
      cases hpair
      exact Nat.le_succ _
  · split at h
    · cases h
      rw [List.length_drop]
      exact Nat.sub_le _ _
    · cases h

/-- The bytes for which the characters between the quotes stand, if they are well-formed. A
character that begins no escape sequence stands for its own bytes. -/
def unescape (cs : List Char) : Option (List UInt8) :=
  match cs with
  | [] => some []
  | c :: cs =>
    if c = '\\' then
      match _h : escape? cs with
      | none => none
      | some (b, rest) => (unescape rest).map (b :: ·)
    else if c = '"' || c = '\n' then none
    else (unescape cs).map (String.utf8EncodeChar c ++ ·)
termination_by cs.length
decreasing_by
  · exact Nat.lt_succ_of_le (length_escape?_le _h)
  · exact Nat.lt_succ_self _

/-- The bytes for which a string literal stands. -/
def bytes? (literal : String) : Option (List UInt8) :=
  match literal.toList with
  | '"' :: cs => if cs.getLast? = some '"' then unescape cs.dropLast else none
  | _ => none

/-- What a function prints that is given a string literal, and reads it up to the first zero. -/
def printed? (literal : String) : Option (List UInt8) :=
  (bytes? literal).map (List.takeWhile (· ≠ 0))

/-! ### The literal for a text -/

theorem unescape_escape {cs rest : List Char} {b : UInt8} (h : escape? cs = some (b, rest)) :
    unescape ('\\' :: cs) = (unescape rest).map (b :: ·) := by
  rw [unescape, if_pos rfl]
  split
  · next hnone => cases hnone.symm.trans h
  · next b' rest' hsome =>
    obtain ⟨rfl, rfl⟩ := Prod.mk.inj (Option.some.inj (hsome.symm.trans h))
    rfl

theorem unescape_plain {c : Char} (hslash : c ≠ '\\') (hquote : c ≠ '"') (hfeed : c ≠ '\n')
    (cs : List Char) :
    unescape (c :: cs) = (unescape cs).map (String.utf8EncodeChar c ++ ·) := by
  simp [unescape, hslash, hquote, hfeed]

theorem digitChar_octal : ∀ n < 8,
    isOctalDigit (Nat.digitChar n) = true ∧ (Nat.digitChar n).toNat - '0'.toNat = n := by
  decide

/-- The three digits of a byte are the digits of its escape sequence, whatever follows them. -/
theorem octalDigits_octal (b : UInt8) (cs : List Char) :
    octalDigits (Text.octal b ++ cs) = Text.octal b := by
  have hb := b.toNat_lt
  have h₁ := (digitChar_octal (b.toNat / 64) (by omega)).1
  have h₂ := (digitChar_octal (b.toNat / 8 % 8) (by omega)).1
  have h₃ := (digitChar_octal (b.toNat % 8) (by omega)).1
  simp [octalDigits, Text.octal, h₁, h₂, h₃]

theorem ofDigitChars_octal (b : UInt8) : Nat.ofDigitChars 8 (Text.octal b) 0 = b.toNat := by
  have hb := b.toNat_lt
  have h₁ := (digitChar_octal (b.toNat / 64) (by omega)).2
  have h₂ := (digitChar_octal (b.toNat / 8 % 8) (by omega)).2
  have h₃ := (digitChar_octal (b.toNat % 8) (by omega)).2
  simp only [Text.octal, Nat.ofDigitChars_cons, h₁, h₂, h₃]
  simp only [Nat.ofDigitChars, List.foldl_nil]
  omega

theorem escape?_octal (b : UInt8) (cs : List Char) :
    escape? (Text.octal b ++ cs) = some (b, cs) := by
  have hne : Text.octal b ≠ [] := by simp [Text.octal]
  rw [escape?.eq_def, octalDigits_octal, if_neg hne, ofDigitChars_octal, if_pos b.toNat_lt,
    List.drop_left, UInt8.ofNat_toNat]

/-- A printable character is encoded as a single byte. -/
theorem utf8EncodeChar_ofUInt8 {b : UInt8} (h : b ≤ 126) :
    String.utf8EncodeChar (Char.ofUInt8 b) = [b] := by
  have hb : b.toNat ≤ 126 := UInt8.le_iff_toNat_le.mp h
  have hvalue : (Char.ofUInt8 b).val.toNat = b.toNat := UInt8.toNat_toUInt32 b
  simp [String.utf8EncodeChar, hvalue, show b.toNat ≤ 127 by omega]

/-- The characters of a byte stand for the byte, whatever follows them. -/
theorem unescape_escapeByte (b : UInt8) (cs : List Char) :
    unescape (Text.escapeByte b ++ cs) = (unescape cs).map (b :: ·) := by
  have hunit := Text.escapedAs_escapeByte b
  generalize Text.escapeByte b = unit at hunit ⊢
  cases hunit with
  | named mem =>
    simp only [List.mem_cons, Prod.mk.injEq, List.not_mem_nil, or_false] at mem
    rcases mem with ⟨rfl, rfl⟩ | ⟨rfl, rfl⟩ | ⟨rfl, rfl⟩ <;> exact unescape_escape rfl
  | plain printable ne =>
    have hfeed : b ≠ 10 := by
      rintro rfl
      exact absurd printable.1 (by decide)
    rw [List.singleton_append, unescape_plain (Text.ofUInt8_ne ne.2.1) (Text.ofUInt8_ne ne.1)
      (Text.ofUInt8_ne hfeed), utf8EncodeChar_ofUInt8 printable.2]
    rfl
  | octal => exact unescape_escape (escape?_octal b cs)

theorem unescape_escapeBytes (bytes : List UInt8) :
    unescape (bytes.flatMap Text.escapeByte) = some bytes := by
  induction bytes with
  | nil => rw [List.flatMap_nil, unescape]
  | cons b bytes ih => rw [List.flatMap_cons, unescape_escapeByte, ih, Option.map_some]

/-- **The string literal for a text stands for the bytes of the text.** -/
theorem bytes_cString (content : String) :
    bytes? (Text.cString content) = some (Text.utf8 content) := by
  simp [bytes?, Text.cString, unescape_escapeBytes]

/-! ### The character zero -/

/-- Only the character zero has a zero among its bytes. -/
theorem ne_zero_of_mem_utf8EncodeChar {c : Char} (hc : c ≠ '\x00') :
    ∀ b ∈ String.utf8EncodeChar c, b ≠ 0 := by
  rintro b hb rfl
  exact hc (Text.eq_of_mem_utf8EncodeChar hb (by decide))

/-- The bytes of a text up to the first zero are those of the text up to its first character
zero. -/
theorem takeWhile_utf8 (cs : List Char) :
    (cs.flatMap String.utf8EncodeChar).takeWhile (· ≠ 0) =
      (cs.takeWhile (· ≠ '\x00')).flatMap String.utf8EncodeChar := by
  induction cs with
  | nil => rfl
  | cons c cs ih =>
    by_cases hc : c = '\x00'
    · subst hc
      rfl
    · have hall : ∀ b ∈ String.utf8EncodeChar c, decide (b ≠ 0) = true := by
        simpa using ne_zero_of_mem_utf8EncodeChar hc
      rw [List.flatMap_cons, List.takeWhile_append_of_pos hall, ih,
        List.takeWhile_cons_of_pos (by simpa using hc), List.flatMap_cons]

/-- What is printed for a text is the text up to its first character zero. -/
theorem printed_cString (content : String) :
    printed? (Text.cString content) =
      some (Text.utf8 (String.ofList (content.toList.takeWhile (· ≠ '\x00')))) := by
  rw [printed?, bytes_cString, Option.map_some, Text.utf8, takeWhile_utf8, Text.utf8,
    String.toList_ofList]

/-- A text is printed whole just if the character zero is not in it. -/
theorem printed_cString_iff (content : String) :
    printed? (Text.cString content) = some (Text.utf8 content) ↔ '\x00' ∉ content.toList := by
  rw [printed?, bytes_cString, Option.map_some, Option.some.injEq, List.takeWhile_eq_self_iff]
  constructor
  · intro h hzero
    have hmem : 0 ∈ Text.utf8 content := List.mem_flatMap.mpr ⟨_, hzero, List.mem_singleton_self 0⟩
    simpa using h 0 hmem
  · intro h b hb
    obtain ⟨c, hc, hb⟩ := List.mem_flatMap.mp hb
    exact decide_eq_true (ne_zero_of_mem_utf8EncodeChar (fun hzero => h (hzero ▸ hc)) b hb)

end C

/-! ### Where literals are written -/

open Goal

variable {items : List Item} {source : Source} {g : Goal} {gs goals : List Goal} {s : State}
  {content : String}

theorem lead_printText (p : Place) : (Fragment.printText content).lead p = none := by
  cases p <;> rfl

/-- A slot prints a text where the token is that text. -/
theorem eq_text_of_fill {slot : Slot} {depth : Nat} {scope scope' : Scope} {t : Token}
    (hwritten : ∀ e, slot ≠ .written e (.printText content))
    (h : slot.fill depth scope t = .ok (scope', some (.printText content))) :
    t = .text content := by
  generalize hf : Fragment.printText content = f at h hwritten
  cases Slot.fills_of_fill h with
  | written e => exact absurd rfl (hwritten e)
  | @declared kind => cases kind <;> cases hf
  | relation r => cases r <;> cases hf
  | @used slot => cases slot <;> cases hf
  | printedText =>
    cases hf
    rfl
  | constantValue | arrayBound | operand | printed => cases hf

/-- The text is a token of the program. -/
def Source.HasText (source : Source) (content : String) : Prop :=
  .ok (.text content) ∈ source.items.map Located.value

/-- A goal that prints a text has read it. -/
theorem Visited.hasText_of_emits (h : Visited source.items (g :: gs) s)
    (hf : g.Emits s (.printText content)) : source.HasText content := by
  have hnot (hg : g = perform (.write (.printText content)) ∨
      ∃ e, g = fill (.written e (.printText content))) : False := by
    obtain ⟨p, q, hq⟩ := h.exists_lead hg
    rw [lead_printText] at hq
    cases hq
  rcases hf with hg | ⟨slot, scope, rfl, hfill⟩
  · exact (hnot (.inl hg)).elim
  · have htoken := eq_text_of_fill (fun e he => hnot (.inr ⟨e, congrArg fill he⟩)) hfill
    rw [Source.HasText, ← htoken]
    exact h.lookahead_mem

/-- **Only texts of the program are printed**, whether it is compiled to its end or not. -/
theorem hasText_of_printText (content : String)
    (h : .printText content ∈ (compileItems source.items).state.fragments) :
    source.HasText content := by
  have hall : ∀ f ∈ (compileItems source.items).state.fragments, ∀ content,
      f = .printText content → source.HasText content :=
    forall_written fun hvisited hf content heq => hvisited.hasText_of_emits (heq ▸ hf)
  exact hall _ h content rfl

/-! ### What is printed -/

/-- The statement that prints a string literal. -/
def C.printStatement (literal : String) : List C.Token :=
  [.mark "(", .word "void", .mark ")", .word "fputs", .mark "(", .quoted literal, .mark ",",
    .word "stdout", .mark ")", .mark ";"]

/-- **A text is printed up to its first character zero, and whole just if it has none.** Every
printing of a literal that is written is that of a text of the program; and for every text of the
program, C reads the statement as one that is given a single literal, and of that literal it prints
the bytes of the text up to its first character zero. -/
theorem printed_of_literal (source : Source) :
    (∀ content, .printText content ∈ (compileItems source.items).state.fragments →
      source.HasText content) ∧
    ∀ content, source.HasText content →
      ∃ literal, C.tokens (Fragment.printText content).text = C.printStatement literal ∧
        C.printed? literal =
          some (Text.utf8 (String.ofList (content.toList.takeWhile (· ≠ '\x00')))) ∧
        (C.printed? literal = some (Text.utf8 content) ↔ '\x00' ∉ content.toList) :=
  ⟨hasText_of_printText, fun content _ => ⟨Text.cString content,
    (scans_printText content).tokens_eq, C.printed_cString content,
    C.printed_cString_iff content⟩⟩

/-- A text that holds the character zero is accepted, but nothing behind that character is printed.
-/
theorem printed_of_literal_zero :
    let source : Source := ⟨"zero.pl0", "writeStr 'a\x00b'."⟩
    ((compile source).deliver .unlimited).failure? = none ∧ source.HasText "a\x00b" ∧
      ∃ literal, C.tokens (Fragment.printText "a\x00b").text = C.printStatement literal ∧
        C.printed? literal = some (Text.utf8 "a") ∧
        C.printed? literal ≠ some (Text.utf8 "a\x00b") := by
  let source : Source := ⟨"zero.pl0", "writeStr 'a\x00b'."⟩
  have haccepted : ((compile source).deliver .unlimited).failure? = none := by decide +kernel
  have htext : Except.ok (Token.text "a\x00b") ∈ source.items.map Located.value := by
    decide +kernel
  obtain ⟨literal, htokens, hprinted, hwhole⟩ := (printed_of_literal source).2 _ htext
  have hzero : '\x00' ∈ "a\x00b".toList := by decide +kernel
  have hfirst : String.ofList ("a\x00b".toList.takeWhile (· ≠ '\x00')) = "a" := by decide +kernel
  exact ⟨haccepted, htext, literal, htokens, hfirst ▸ hprinted, fun h => hwhole.mp h hzero⟩

end PlZero
