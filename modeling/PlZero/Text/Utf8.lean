/-!
# Numbers as texts, and texts as bytes

Numbers are written in decimal, with as few digits as possible and a minus sign in front of a
negative one. Everything that leaves the compiler is a sequence of bytes: the UTF-8 encoding of its
text.
-/

namespace PlZero.Text

/-! ### Numbers -/

/-- A number in decimal digits. -/
def decimal : Int → String
  | .ofNat n => Nat.repr n
  | .negSucc n => "-" ++ Nat.repr (n + 1)

theorem toList_decimal_natCast (n : Nat) : (decimal n).toList = Nat.toDigits 10 n :=
  Nat.toList_repr

/-! ### Bytes -/

/-- The bytes of a text in UTF-8. -/
def utf8 (text : String) : List UInt8 :=
  text.toList.flatMap String.utf8EncodeChar

@[simp]
theorem utf8_append (s t : String) : utf8 (s ++ t) = utf8 s ++ utf8 t := by
  simp [utf8]

/-- Different texts have different bytes. -/
theorem utf8_injective {s t : String} (h : utf8 s = utf8 t) : s = t := by
  have hencode : s.toList.utf8Encode = t.toList.utf8Encode := congrArg List.toByteArray h
  have hdecode := congrArg ByteArray.utf8Decode? hencode
  rw [List.utf8Decode?_utf8Encode, List.utf8Decode?_utf8Encode] at hdecode
  exact String.toList_inj.mp (List.toArray_inj (Option.some.inj hdecode))

/-- Each byte of a longer encoding has its upper half set. -/
theorem ofNat_upper_not_lt (n : Nat) {k m : Nat} (hk : 0 < k) (hm : 128 ≤ m) (hsum : k + m ≤ 256) :
    ¬ UInt8.ofNat (n % k + m) < 128 := by
  intro hlt
  have hmod := Nat.mod_lt n hk
  have hbyte : (n % k + m) % 256 < 128 := by simpa using UInt8.lt_iff_toNat_lt.mp hlt
  omega

/-- A byte below 128 stands for one character only. -/
theorem eq_of_mem_utf8EncodeChar {c : Char} {b : UInt8} (h : b ∈ String.utf8EncodeChar c)
    (hb : b < 128) : c = Char.ofUInt8 b := by
  have hupper (n k m : Nat) (hk : 0 < k) (hm : 128 ≤ m) (hsum : k + m ≤ 256)
      (heq : b = UInt8.ofNat (n % k + m)) : c = Char.ofUInt8 b :=
    absurd (heq ▸ hb) (ofNat_upper_not_lt n hk hm hsum)
  simp only [String.utf8EncodeChar] at h
  split at h
  · next hsmall =>
    have hvalue : b.toNat = c.val.toNat := by
      rw [List.mem_singleton.mp h]
      exact UInt8.toNat_ofNat_of_lt' (Nat.lt_of_le_of_lt hsmall (by decide))
    exact Char.ext (UInt32.toNat_inj.mp hvalue.symm)
  · -- All bytes of a longer encoding lie above.
    split at h
    · simp only [List.mem_cons, List.not_mem_nil, or_false] at h
      rcases h with h | h <;> exact hupper _ _ _ (by decide) (by decide) (by decide) h
    · split at h <;> simp only [List.mem_cons, List.not_mem_nil, or_false] at h
      · rcases h with h | h | h <;> exact hupper _ _ _ (by decide) (by decide) (by decide) h
      · rcases h with h | h | h | h <;> exact hupper _ _ _ (by decide) (by decide) (by decide) h

/-- A byte below 128 is in a text where its character is. -/
theorem mem_toList_of_mem_utf8 {text : String} {b : UInt8} (h : b ∈ utf8 text) (hb : b < 128) :
    Char.ofUInt8 b ∈ text.toList := by
  obtain ⟨c, hc, hmem⟩ := List.mem_flatMap.mp h
  exact eq_of_mem_utf8EncodeChar hmem hb ▸ hc

end PlZero.Text
