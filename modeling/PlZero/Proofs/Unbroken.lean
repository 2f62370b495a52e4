import PlZero.Proofs.Items
import PlZero.Text.Utf8

/-!
# Unbroken texts

A text is unbroken (`Unbroken`) if it holds no line feed, and a line (`IsLine`) if it ends with the
only one that it holds. Words and numbers are unbroken, and so is what is put together from unbroken
parts.
-/

namespace PlZero

/-- The text holds no line feed. -/
def Unbroken (text : String) : Prop := '\n' ∉ text.toList

instance (text : String) : Decidable (Unbroken text) := inferInstanceAs (Decidable ('\n' ∉ _))

/-- The text is one line: it ends with its only line feed. -/
def IsLine (text : String) : Prop := text.toList.count '\n' = 1 ∧ text.toList.getLast? = some '\n'

variable {s t : String}

theorem unbroken_append_iff : Unbroken (s ++ t) ↔ Unbroken s ∧ Unbroken t := by
  simp [Unbroken]

theorem Unbroken.append (hs : Unbroken s) (ht : Unbroken t) : Unbroken (s ++ t) :=
  unbroken_append_iff.mpr ⟨hs, ht⟩

/-- Between two other parts. -/
theorem Unbroken.within {head rest : String} (h : Unbroken t) (hhead : Unbroken head)
    (hrest : Unbroken rest) : Unbroken (head ++ t ++ rest) :=
  (hhead.append h).append hrest

theorem unbroken_of_forall {p : Char → Bool} (hp : p '\n' = false) (h : ∀ c ∈ t.toList, p c) :
    Unbroken t := fun hfeed => by
  have hnot := h _ hfeed
  rw [hp] at hnot
  cases hnot

/-- A line feed behind an unbroken text makes a line of it. -/
theorem isLine_append_iff : IsLine (t ++ "\n") ↔ Unbroken t := by
  have hfeed : "\n".toList = ['\n'] := rfl
  simp [IsLine, Unbroken, String.toList_append, hfeed, List.count_append, List.count_eq_zero]

theorem IsWord.forall_isWordPart {x : String} (h : IsWord x) : ∀ c ∈ x.toList, isWordPart c := by
  obtain ⟨c, cs, hx, hc, hcs⟩ := h
  rw [hx]
  exact List.forall_mem_cons.mpr ⟨isWordPart_of_isWordStart hc, hcs⟩

theorem IsWord.unbroken {x : String} (h : IsWord x) : Unbroken x :=
  unbroken_of_forall (p := isWordPart) (by decide) h.forall_isWordPart

theorem isDigit_of_mem_repr {n : Nat} {c : Char} (h : c ∈ (Nat.repr n).toList) : c.isDigit :=
  Nat.isDigit_of_mem_toDigits (by decide) (by decide) (Nat.toList_repr ▸ h)

/-- A number is written with digits and perhaps a sign. -/
theorem isDigit_or_eq_of_mem_decimal {n : Int} {c : Char} (h : c ∈ (Text.decimal n).toList) :
    c.isDigit ∨ c = '-' := by
  cases n with
  | ofNat n => exact .inl (isDigit_of_mem_repr h)
  | negSucc n =>
    have hsign : "-".toList = ['-'] := rfl
    rw [Text.decimal, String.toList_append, hsign] at h
    rcases List.mem_append.mp h with hc | hc
    · exact .inr (List.mem_singleton.mp hc)
    · exact .inl (isDigit_of_mem_repr hc)

theorem unbroken_repr (n : Nat) : Unbroken (Nat.repr n) :=
  unbroken_of_forall (p := Char.isDigit) rfl fun _ hc => isDigit_of_mem_repr hc

theorem unbroken_decimal (n : Int) : Unbroken (Text.decimal n) := fun hmem =>
  absurd (isDigit_or_eq_of_mem_decimal hmem) (by decide)

/-! ### Spellings -/

theorem Keyword.unbroken_spelling (k : Keyword) : Unbroken k.spelling := by
  cases k <;> decide

theorem Mark.unbroken_spelling (m : Mark) : Unbroken m.spelling := by
  cases m <;> decide

theorem newline_mem_doubleQuotes {cs : List Char} : '\n' ∈ Token.doubleQuotes cs ↔ '\n' ∈ cs := by
  induction cs with
  | nil => simp [Token.doubleQuotes]
  | cons c cs ih =>
    by_cases hc : c = '\''
    · simp [Token.doubleQuotes, hc, ih]
    · simp [Token.doubleQuotes, hc, ih]

end PlZero
