import Mathlib.Data.List.Induction
import Mathlib.Data.Nat.Digits.Defs
import PlZero.Proofs.Respelling

/-!
# Numbers and their spellings

A number is spelled with digits, and with separators behind the first of them (`IsNumber`). It is
read as a whole, whatever its digits are, and its value is the one that these have by their places
(`Cursor.next_of_isNumber`, `valueOf_eq_placeValue`). So neither the separators nor the zeros in
front make a difference to its value (`SameNumber.valueOf_eq`).

If two texts are spelled alike but for this (`Respelled`), reading them gives the same items but for
the digits that numbers keep (`Respelled.items`).
-/

namespace PlZero

variable {cs ds number number' gap lexeme rest : List Char} {value : Except LexicalError Token}

/-! ### Values -/

/-- A number as it may stand in a text, whether it is in range or not. -/
def IsNumber (number : List Char) : Prop :=
  ∃ c cs, number = c :: cs ∧ c.isDigit = true ∧ ∀ d ∈ cs, isNumberPart d = true

/-- The value that digits have by their places. -/
def placeValue (digits : List Char) : Nat :=
  Nat.ofDigits 10 (digits.reverse.map fun c => c.toNat - '0'.toNat)

theorem valueOf_eq_placeValue (digits : List Char) : valueOf digits = placeValue digits := by
  induction digits using List.reverseRecOn with
  | nil => rfl
  | append_singleton digits c ih =>
    have hlast : valueOf (digits ++ [c]) = 10 * valueOf digits + (c.toNat - '0'.toNat) := by
      rw [valueOf, Nat.ofDigitChars_append]
      rfl
    rw [hlast, ih, placeValue, placeValue, List.reverse_append, List.reverse_singleton,
      List.singleton_append, List.map_cons, Nat.ofDigits_cons, Nat.add_comm]

/-- The numbers have the same digits, but for separators and for zeros in front. -/
def SameNumber (number number' : List Char) : Prop :=
  (digitsOf number).dropWhile (· = '0') = (digitsOf number').dropWhile (· = '0')

instance (number number' : List Char) : Decidable (SameNumber number number') :=
  inferInstanceAs (Decidable (_ = _))

/-- Zeros in front do not count. -/
theorem valueOf_dropWhile (digits : List Char) :
    valueOf (digits.dropWhile (· = '0')) = valueOf digits := by
  induction digits with
  | nil => rfl
  | cons c digits ih =>
    by_cases hc : c = '0'
    · subst hc
      rw [List.dropWhile_cons_of_pos (by rfl), ih]
      rfl
    · rw [List.dropWhile_cons_of_neg (by simpa using hc)]

theorem SameNumber.valueOf_eq (h : SameNumber number number') :
    valueOf (digitsOf number) = valueOf (digitsOf number') := by
  rw [← valueOf_dropWhile, h, valueOf_dropWhile]

/-! ### Reading -/

/-- What is read behind a gap where a lexeme does not go on. -/
theorem Cursor.next_of_lexeme (hgap : IsGap gap) (hlexeme : Lexeme lexeme rest value)
    (hrest : ∀ c ∈ lexeme.head?, ∀ d ∈ rest.head?, goesOn c d = false) (line : Line) :
    (⟨gap ++ (lexeme ++ rest), line⟩ : Cursor).next =
      (⟨gap.foldl Line.after line, value⟩, ⟨rest, gap.foldl Line.after line⟩) := by
  obtain ⟨c, cs, rfl, hopen, hblank⟩ := hlexeme.head
  rw [next_of_isGap hgap, List.cons_append, next_cons _ _ hopen hblank,
    readToken_of_lexeme hlexeme (hrest c rfl) (List.cons_append ..)]

theorem IsNumber.lexeme_numberToken (h : IsNumber number) (rest : List Char) :
    Lexeme number rest (numberToken (digitsOf number)) := by
  obtain ⟨c, cs, rfl, hc, hcs⟩ := h
  rw [numberToken]
  by_cases hvalue : valueOf (digitsOf (c :: cs)) ≤ maxNumber
  · exact (if_pos hvalue).symm ▸ .number rest hc hcs hvalue
  · exact (if_neg hvalue).symm ▸ .tooLarge rest hc hcs (Nat.lt_of_not_le hvalue)

/-- **A number is read as a whole.** -/
theorem Cursor.next_of_isNumber (hgap : IsGap gap) (hnumber : IsNumber number)
    (hrest : ∀ d ∈ rest.head?, isNumberPart d = false) (line : Line) :
    (⟨gap ++ (number ++ rest), line⟩ : Cursor).next =
      (⟨gap.foldl Line.after line, numberToken (digitsOf number)⟩,
        ⟨rest, gap.foldl Line.after line⟩) := by
  refine next_of_lexeme hgap (hnumber.lexeme_numberToken rest) (fun c hc d hd => ?_) line
  obtain ⟨e, es, rfl, he, -⟩ := hnumber
  obtain rfl := Option.some.inj hc
  rw [goesOn_of_isDigit he, hrest d hd]

/-! ### Digits left out -/

/-- The token without the digits that a number keeps. -/
def Token.unspelled : Token → Token
  | .number value _ => .number value ""
  | t => t

/-- The error without the digits of a number that is too large. -/
def LexicalError.unspelled : LexicalError → LexicalError
  | .numberTooLarge _ => .numberTooLarge ""
  | e => e

/-- The item without the digits of a number. -/
def Item.unspelled (i : Item) : Item :=
  i.map fun
    | .ok t => .ok t.unspelled
    | .error e => .error e.unspelled

theorem isLast_unspelled (i : Item) : Cursor.isLast i.unspelled = Cursor.isLast i := by
  obtain ⟨line, e | t⟩ := i
  · rfl
  · cases t <;> rfl

/-- Spellings of the same number are read alike. -/
theorem SameNumber.unspelled_eq (h : SameNumber number number') (line : Line) :
    Item.unspelled ⟨line, numberToken (digitsOf number)⟩ =
      Item.unspelled ⟨line, numberToken (digitsOf number')⟩ := by
  have hvalue : Nat.ofDigitChars 10 (digitsOf number) 0 =
      Nat.ofDigitChars 10 (digitsOf number') 0 := h.valueOf_eq
  simp only [numberToken, ← hvalue]
  split <;> rfl

/-! ### Texts with other spellings -/

/-- The second text is the first one with other spellings for some numbers. -/
inductive Respelled : List Char → List Char → Prop
  /-- Nothing is spelled in another way. -/
  | refl (cs : List Char) : Respelled cs cs
  /-- A number may be spelled in another way, -/
  | number {gap number number' cs ds : List Char} (hgap : IsGap gap) (hnumber : IsNumber number)
    (hnumber' : IsNumber number') (hsame : SameNumber number number')
    (hends : ∀ d ∈ cs.head?, isNumberPart d = false) (more : Respelled cs ds) :
    Respelled (gap ++ (number ++ cs)) (gap ++ (number' ++ ds))
  /-- and every other token stays. -/
  | token {gap lexeme cs ds : List Char} {t : Token} (hgap : IsGap gap)
    (hlexeme : Lexeme lexeme cs (.ok t))
    (hends : ∀ c ∈ lexeme.head?, ∀ d ∈ cs.head?, goesOn c d = false) (more : Respelled cs ds) :
    Respelled (gap ++ (lexeme ++ cs)) (gap ++ (lexeme ++ ds))

namespace Respelled

/-- The texts begin with the same character, or both with digits. -/
theorem head_cases (h : Respelled cs ds) :
    cs.head? = ds.head? ∨ ∃ c d, cs.head? = some c ∧ ds.head? = some d ∧ c.isDigit ∧ d.isDigit := by
  cases h with
  | refl => exact .inl rfl
  | @number gap number number' cs ds hgap hnumber hnumber' =>
    cases gap with
    | nil =>
      obtain ⟨c, _, rfl, hc, -⟩ := hnumber
      obtain ⟨d, _, rfl, hd, -⟩ := hnumber'
      exact .inr ⟨c, d, rfl, rfl, hc, hd⟩
    | cons c gap => exact .inl rfl
  | @token gap lexeme cs ds t hgap hlexeme =>
    obtain ⟨c, es, rfl, -⟩ := hlexeme.head
    cases gap <;> exact .inl rfl

/-- The other text does not begin with any character of a class either, if this class does not tell
digits apart. -/
theorem head_eq_false (h : Respelled cs ds) {p : Char → Bool}
    (hp : ∀ c d : Char, c.isDigit → d.isDigit → p c = p d) (hcs : ∀ c ∈ cs.head?, p c = false) :
    ∀ d ∈ ds.head?, p d = false := by
  intro d hd
  rcases h.head_cases with heq | ⟨c, d', hc, hd', hdigit, hdigit'⟩
  · exact hcs d (heq ▸ hd)
  · obtain rfl : d' = d := Option.some.inj (hd'.symm.trans hd)
    rw [← hp c d' hdigit hdigit', hcs c hc]

/-- A token stays what it is, whatever the numbers behind it are spelled like. -/
theorem lexeme_behind (h : Respelled cs ds) (hlexeme : Lexeme lexeme cs value) :
    Lexeme lexeme ds value := by
  cases hlexeme with
  | keyword k => exact .keyword k ds
  | name _ hword hname => exact .name ds hword hname
  | number _ hc hcs hvalue => exact .number ds hc hcs hvalue
  | tooLarge _ hc hcs hvalue => exact .tooLarge ds hc hcs hvalue
  | mark m => exact .mark m ds
  | text hcontent hfeed hquote =>
    -- Only another quote would go on with the text, and no number begins with one.
    refine .text hcontent hfeed fun hhead => ?_
    rcases h.head_cases with heq | ⟨-, d, -, hd, -, hdigit⟩
    · exact hquote (heq.trans hhead)
    · obtain rfl := Option.some.inj (hd.symm.trans hhead)
      exact absurd hdigit (by decide)

theorem items_of_next {c d : Cursor} (hitem : c.next.1.unspelled = d.next.1.unspelled)
    (hmore : c.next.2.items.map Item.unspelled = d.next.2.items.map Item.unspelled) :
    c.items.map Item.unspelled = d.items.map Item.unspelled := by
  have hlast : Cursor.isLast c.next.1 = Cursor.isLast d.next.1 := by
    rw [← isLast_unspelled, hitem, isLast_unspelled]
  rw [c.items_eq, d.items_eq, hlast]
  split <;> simp [hitem, hmore]

/-- **Reading gives the same items**, but for the digits of numbers. -/
theorem items (h : Respelled cs ds) (line : Line) :
    (⟨cs, line⟩ : Cursor).items.map Item.unspelled =
      (⟨ds, line⟩ : Cursor).items.map Item.unspelled := by
  induction h generalizing line with
  | refl => rfl
  | number hgap hnumber hnumber' hsame hends more ih =>
    have hpart (c d : Char) (hc : c.isDigit) (hd : d.isDigit) :
        isNumberPart c = isNumberPart d := by
      simp [isNumberPart, hc, hd]
    have hends' := more.head_eq_false hpart hends
    refine items_of_next ?_ ?_ <;>
      rw [Cursor.next_of_isNumber hgap hnumber hends, Cursor.next_of_isNumber hgap hnumber' hends']
    · exact hsame.unspelled_eq _
    · exact ih _
  | @token gap lexeme cs ds t hgap hlexeme hends more ih =>
    have hgoesOn (e c d : Char) (hc : c.isDigit) (hd : d.isDigit) : goesOn e c = goesOn e d := by
      simp [goesOn, isNumberPart, isWordPart, Char.isAlphanum, hc, hd]
    have hends' : ∀ c ∈ lexeme.head?, ∀ d ∈ ds.head?, goesOn c d = false := fun c hc =>
      more.head_eq_false (hgoesOn c) (hends c hc)
    refine items_of_next ?_ ?_ <;>
      rw [Cursor.next_of_lexeme hgap hlexeme hends,
        Cursor.next_of_lexeme hgap (more.lexeme_behind hlexeme) hends']
    exact ih _

end Respelled

end PlZero
