import PlZero.Proofs.Items
import PlZero.Text.CString

/-!
# The tokens of C

C reads a text from left to right and makes every token as long as it can be. The scanner keeps the
lexeme that it is in the middle of (`Pending`), and a character either continues that lexeme
(`Pending.extend`) or ends it and begins another. So scanning goes through texts one behind the
other (`scan_append`), and two texts have their own tokens side by side if the first character of
the one does not continue the last lexeme of the other (`tokens_append`).

A line that begins with `#` is a directive up to its end. Left out are what no generated text
contains: the ellipsis, the digraphs, trigraphs and lines that a backslash joins.
-/

namespace PlZero.C

/-- A token, with its spelling. -/
inductive Token
  | word (text : String)
  | number (text : String)
  /-- A string literal or a character constant, with its quotes. -/
  | quoted (text : String)
  | mark (text : String)
  | directive (text : String)
  /-- A character that begins no token. -/
  | stray (c : Char)
  deriving DecidableEq, Repr

/-- The punctuators, each of whose beginnings is one as well. -/
def marks : List (List Char) :=
  [['['], [']'], ['('], [')'], ['{'], ['}'], ['.'], ['-', '>'], ['+', '+'], ['-', '-'], ['&'],
    ['*'], ['+'], ['-'], ['~'], ['!'], ['/'], ['%'], ['<', '<'], ['>', '>'], ['<'], ['>'],
    ['<', '='], ['>', '='], ['=', '='], ['!', '='], ['^'], ['|'], ['&', '&'], ['|', '|'], ['?'],
    [':'], [';'], ['='], ['*', '='], ['/', '='], ['%', '='], ['+', '='], ['-', '='],
    ['<', '<', '='], ['>', '>', '='], ['&', '='], ['^', '='], ['|', '='], [',']]

/-- What may stand in front of a quote as a part of the literal. -/
def encodings : List (List Char) := [['L'], ['u'], ['U'], ['u', '8']]

/-! ### Scanning -/

/-- The lexeme that a text has ended in, its characters backwards. -/
inductive Pending
  | none
  | word (text : List Char)
  | number (text : List Char)
  | mark (text : List Char)
  /-- A literal that is still open, and whether the next character is escaped. -/
  | quoted (quote : Char) (text : List Char) (escaped : Bool)
  /-- A literal with its closing quote. -/
  | closed (text : List Char)
  | lineComment
  /-- A comment that is still open, and whether its last character is a star. -/
  | comment (star : Bool)
  | directive (text : List Char)
  | stray (c : Char)
  deriving DecidableEq, Repr

namespace Pending

/-- The lexeme that begins with `c`. -/
def begin_ (c : Char) : Pending :=
  if isWordStart c then word [c]
  else if c.isDigit then number [c]
  else if c = '"' || c = '\'' then quoted c [c] false
  else if c = '#' then directive [c]
  else if isBlank c then none
  else if marks.contains [c] then mark [c]
  else stray c

/-- The lexeme with `c` behind it, if `c` continues it. -/
def extend : Pending → Char → Option Pending
  | none, _ | closed _, _ | stray _, _ => .none
  | word text, c =>
    if isWordPart c then some (word (c :: text))
    else if (c = '"' || c = '\'') && encodings.contains text.reverse then
      some (quoted c (c :: text) false)
    else .none
  | number text, c =>
    if isWordPart c || c = '.' then some (number (c :: text))
    else if (c = '+' || c = '-') && (text.head?.any fun e => "eEpP".contains e) then
      some (number (c :: text))
    else .none
  | mark text, c =>
    if marks.contains (c :: text).reverse then some (mark (c :: text))
    else if text = ['/'] && c = '*' then some (comment false)
    else if text = ['/'] && c = '/' then some lineComment
    else if text = ['.'] && c.isDigit then some (number (c :: text))
    else .none
  | quoted quote text escaped, c =>
    if escaped then some (quoted quote (c :: text) false)
    else if c = quote then some (closed (c :: text))
    else some (quoted quote (c :: text) (c = '\\'))
  | lineComment, c => if c = '\n' then .none else some lineComment
  | comment star, c => if star && c = '/' then some none else some (comment (c = '*'))
  | directive text, c => if c = '\n' then .none else some (directive (c :: text))

/-- The token that a lexeme makes, if it makes one. -/
def flush : Pending → List Token
  | none | lineComment | comment _ => []
  | word text => [.word (String.ofList text.reverse)]
  | number text => [.number (String.ofList text.reverse)]
  | mark text => [.mark (String.ofList text.reverse)]
  | quoted _ text _ | closed text => [.quoted (String.ofList text.reverse)]
  | directive text => [.directive (String.ofList text.reverse)]
  | stray c => [.stray c]

/-- The tokens that end with `c`, and the lexeme behind it. -/
def step (p : Pending) (c : Char) : List Token × Pending :=
  match p.extend c with
  | some q => ([], q)
  | .none => (p.flush, begin_ c)

end Pending

/-- The tokens that end in a text behind a lexeme, and the lexeme that the text ends in. -/
def scan : Pending → List Char → List Token × Pending
  | p, [] => ([], p)
  | p, c :: cs =>
    match p.step c with
    | (ts, q) =>
      match scan q cs with
      | (us, r) => (ts ++ us, r)

theorem scan_cons (p : Pending) (c : Char) (cs : List Char) :
    scan p (c :: cs) = ((p.step c).1 ++ (scan (p.step c).2 cs).1, (scan (p.step c).2 cs).2) := rfl

/-- The lexeme that a text ends in. -/
def after (text : String) : Pending := (scan .none text.toList).2

/-- The tokens of a text. -/
def tokens (text : String) : List Token := (scan .none text.toList).1 ++ (after text).flush

/-- The text `v` does not continue the last lexeme of `u`. -/
def Breaks (u v : String) : Prop := ∀ c ∈ v.toList.head?, (after u).extend c = none

/-! ### Texts one behind the other -/

theorem scan_append (p : Pending) (cs ds : List Char) :
    scan p (cs ++ ds) =
      ((scan p cs).1 ++ (scan (scan p cs).2 ds).1, (scan (scan p cs).2 ds).2) := by
  induction cs generalizing p with
  | nil => simp [scan]
  | cons c cs ih => simp [scan_cons, ih]

/-- A character that does not continue a lexeme ends it. -/
theorem scan_of_extend_eq_none {p : Pending} {c : Char} (h : p.extend c = none) (cs : List Char) :
    scan p (c :: cs) = (p.flush ++ (scan .none (c :: cs)).1, (scan .none (c :: cs)).2) := by
  have hp : p.step c = (p.flush, .begin_ c) := by rw [Pending.step, h]
  have hnone : Pending.none.step c = ([], .begin_ c) := rfl
  rw [scan_cons, scan_cons, hp, hnone, List.nil_append]

theorem scan_of_breaks {u v : String} (h : Breaks u v) (hv : v ≠ "") :
    scan (after u) v.toList = ((after u).flush ++ (scan .none v.toList).1, after v) := by
  rcases hcs : v.toList with _ | ⟨c, cs⟩
  · exact absurd (String.toList_eq_nil_iff.mp hcs) hv
  · rw [after.eq_def v, hcs]
    exact scan_of_extend_eq_none (h c (by simp [hcs])) cs

theorem after_append {u v : String} (h : Breaks u v) (hv : v ≠ "") : after (u ++ v) = after v := by
  rw [after, String.toList_append, scan_append]
  change (scan (after u) v.toList).2 = after v
  rw [scan_of_breaks h hv]

theorem tokens_append {u v : String} (h : Breaks u v) : tokens (u ++ v) = tokens u ++ tokens v := by
  by_cases hv : v = ""
  · subst hv
    simp [tokens, after, scan, Pending.flush]
  · rw [tokens, after_append h hv, String.toList_append, scan_append]
    change (_ ++ (scan (after u) v.toList).1) ++ _ = _
    rw [scan_of_breaks h hv]
    simp [tokens]

/-! ### Words, numbers and strings -/

/-- No punctuator has a letter, a digit or an underscore in it. -/
theorem not_isWordPart_of_mem_marks : ∀ m ∈ marks, ∀ c ∈ m, isWordPart c = false := by
  have hall : (marks.all fun m => m.all fun c => !isWordPart c) = true := by decide
  simpa only [List.all_eq_true, Bool.not_eq_true'] using hall

/-- A letter or a digit does not continue a punctuator. -/
theorem extend_mark_of_isWordPart {text : List Char} {c : Char} (hdot : text ≠ ['.'])
    (hc : isWordPart c) : (Pending.mark text).extend c = none := by
  have hnot : (c :: text).reverse ∉ marks := fun hmem => by
    have := not_isWordPart_of_mem_marks _ hmem c (by simp)
    simp [this] at hc
  have hstar : c ≠ '*' := by rintro rfl; exact absurd hc (by decide)
  have hslash : c ≠ '/' := by rintro rfl; exact absurd hc (by decide)
  simp [Pending.extend, hdot, hstar, hslash, -List.reverse_cons, hnot]

theorem scan_word (text cs : List Char) (h : ∀ c ∈ cs, isWordPart c) :
    scan (.word text) cs = ([], .word (cs.reverse ++ text)) := by
  induction cs generalizing text with
  | nil => rfl
  | cons c cs ih =>
    obtain ⟨hc, hcs⟩ := List.forall_mem_cons.mp h
    have hstep : (Pending.word text).step c = ([], .word (c :: text)) := by
      simp [Pending.step, Pending.extend, hc]
    rw [scan_cons, hstep, ih _ hcs]
    simp

theorem scan_of_isWord {x : String} (h : IsWord x) :
    scan .none x.toList = ([], .word x.toList.reverse) := by
  obtain ⟨c, cs, hx, hc, hcs⟩ := h
  have hstep : Pending.none.step c = ([], .word [c]) := by
    simp [Pending.step, Pending.extend, Pending.begin_, Pending.flush, hc]
  rw [hx, scan_cons, hstep, scan_word [c] cs hcs]
  simp

theorem after_word {x : String} (h : IsWord x) : after x = .word x.toList.reverse := by
  rw [after, scan_of_isWord h]

/-- A word is a single token. -/
theorem tokens_word {x : String} (h : IsWord x) : tokens x = [.word x] := by
  simp [tokens, after_word h, scan_of_isWord h, Pending.flush]

theorem scan_number (text cs : List Char) (h : ∀ c ∈ cs, c.isDigit) :
    scan (.number text) cs = ([], .number (cs.reverse ++ text)) := by
  induction cs generalizing text with
  | nil => rfl
  | cons c cs ih =>
    obtain ⟨hc, hcs⟩ := List.forall_mem_cons.mp h
    have hpart : isWordPart c := by simp [isWordPart, Char.isAlphanum, hc]
    have hstep : (Pending.number text).step c = ([], .number (c :: text)) := by
      simp [Pending.step, Pending.extend, hpart]
    rw [scan_cons, hstep, ih _ hcs]
    simp

theorem scan_decimal {n : Int} (h : 0 ≤ n) :
    scan .none (Text.decimal n).toList = ([], .number (Text.decimal n).toList.reverse) := by
  obtain ⟨m, rfl⟩ := Int.eq_ofNat_of_zero_le h
  have hdigits : ∀ c ∈ (Text.decimal m).toList, c.isDigit := fun c hc => by
    rw [Text.toList_decimal_natCast] at hc
    exact Nat.isDigit_of_mem_toDigits (by decide) (by decide) hc
  rcases hcs : (Text.decimal m).toList with _ | ⟨c, cs⟩
  · rw [Text.toList_decimal_natCast] at hcs
    exact absurd hcs Nat.toDigits_ne_nil
  · rw [hcs] at hdigits
    obtain ⟨hc, hcs⟩ := List.forall_mem_cons.mp hdigits
    have hstart := isWordStart_of_isDigit hc
    have hstep : Pending.none.step c = ([], .number [c]) := by
      simp [Pending.step, Pending.extend, Pending.begin_, Pending.flush, hc, hstart]
    rw [scan_cons, hstep, scan_number [c] cs hcs]
    simp

theorem after_decimal {n : Int} (h : 0 ≤ n) :
    after (Text.decimal n) = .number (Text.decimal n).toList.reverse := by
  rw [after, scan_decimal h]

/-- A number in decimal digits is a single token. -/
theorem tokens_decimal {n : Int} (h : 0 ≤ n) :
    tokens (Text.decimal n) = [.number (Text.decimal n)] := by
  simp [tokens, after_decimal h, scan_decimal h, Pending.flush]

/-- A single operand: a word, or a number in decimal digits. -/
def IsOperand (text : String) : Prop :=
  IsWord text ∨ ∃ n : Int, 0 ≤ n ∧ text = Text.decimal n

/-- A character that ends words and numbers. -/
def Stops (c : Char) : Prop := isWordPart c = false ∧ c ≠ '.' ∧ c ≠ '"' ∧ c ≠ '\''

instance (c : Char) : Decidable (Stops c) := inferInstanceAs (Decidable (_ ∧ _))

theorem toList_decimal {n : Int} (h : 0 ≤ n) :
    ∃ c cs, (Text.decimal n).toList = c :: cs ∧ ∀ d ∈ c :: cs, d.isDigit := by
  obtain ⟨m, rfl⟩ := Int.eq_ofNat_of_zero_le h
  rw [Text.toList_decimal_natCast]
  obtain ⟨c, cs, hcs⟩ := List.ne_nil_iff_exists_cons.mp (Nat.toDigits_ne_nil (n := m) (b := 10))
  refine ⟨c, cs, hcs, fun d hd => ?_⟩
  exact Nat.isDigit_of_mem_toDigits (by decide) (by decide) (hcs ▸ hd)

theorem IsOperand.toList {text : String} (h : IsOperand text) :
    ∃ c cs, text.toList = c :: cs ∧ isWordPart c := by
  rcases h with ⟨c, cs, hx, hc, -⟩ | ⟨n, hn, rfl⟩
  · exact ⟨c, cs, hx, isWordPart_of_isWordStart hc⟩
  · obtain ⟨c, cs, hcs, hdigits⟩ := toList_decimal hn
    exact ⟨c, cs, hcs, by simp [isWordPart, Char.isAlphanum, hdigits c (by simp)]⟩

theorem IsOperand.ne_empty {text : String} (h : IsOperand text) : text ≠ "" := by
  obtain ⟨c, cs, hcs, -⟩ := h.toList
  rintro rfl
  simp at hcs

theorem IsOperand.extend_after {text : String} (h : IsOperand text) {c : Char} (hc : Stops c) :
    (after text).extend c = none := by
  obtain ⟨hpart, hdot, hquote, happo⟩ := hc
  rcases h with hx | ⟨n, hn, rfl⟩
  · simp [after_word hx, Pending.extend, hpart, hquote, happo]
  · obtain ⟨d, ds, hds, hdigits⟩ := toList_decimal hn
    -- A sign would continue the number behind one of four letters only, and it ends in a digit.
    have hlast : ((d :: ds).reverse.head?.any fun e => "eEpP".contains e) = false := by
      cases hhead : (d :: ds).reverse.head? with
      | none => rfl
      | some e =>
        have he := hdigits e (List.mem_reverse.mp (List.mem_of_mem_head? hhead))
        have hne : ∀ k ∈ ['e', 'E', 'p', 'P'], e ≠ k := by
          rintro k hk rfl
          simp only [List.mem_cons, List.not_mem_nil, or_false] at hk
          rcases hk with rfl | rfl | rfl | rfl <;> exact absurd he (by decide)
        simpa using hne
    rw [after_decimal hn, hds]
    simp only [Pending.extend, hpart, hdot, hlast, Bool.and_false]
    simp

/-- A character that neither ends a string literal nor escapes the next one belongs to it. -/
theorem step_quoted {c : Char} (text : List Char) (hquote : c ≠ '"') (hslash : c ≠ '\\') :
    (Pending.quoted '"' text false).step c = ([], .quoted '"' (c :: text) false) := by
  simp [Pending.step, Pending.extend, hquote, hslash]

theorem digitChar_ne {n : Nat} {c : Char} (hn : n < 10) (hc : c.isDigit = false) :
    Nat.digitChar n ≠ c := by
  rintro rfl
  simp [hn] at hc

theorem step_octal {n : Nat} (hn : n < 10) (text : List Char) :
    (Pending.quoted '"' text false).step (Nat.digitChar n) =
      ([], .quoted '"' (Nat.digitChar n :: text) false) :=
  step_quoted text (digitChar_ne hn rfl) (digitChar_ne hn rfl)

/-- The characters of a byte leave a string literal open. -/
theorem scan_escapeByte (b : UInt8) (text : List Char) :
    scan (.quoted '"' text false) (Text.escapeByte b) =
      ([], .quoted '"' ((Text.escapeByte b).reverse ++ text) false) := by
  have hunit := Text.escapedAs_escapeByte b
  generalize Text.escapeByte b = unit at hunit ⊢
  cases hunit with
  | named mem => rfl
  | plain printable ne =>
    rw [scan_cons, step_quoted text (Text.ofUInt8_ne ne.1) (Text.ofUInt8_ne ne.2.1)]
    rfl
  | octal =>
    -- The backslash escapes the first digit, and no digit ends the literal.
    have hb := b.toNat_lt
    have hescape : ∀ c, (Pending.quoted '"' ('\\' :: text) true).step c =
        ([], .quoted '"' (c :: '\\' :: text) false) := fun _ => rfl
    have hopen : (Pending.quoted '"' text false).step '\\' =
        ([], .quoted '"' ('\\' :: text) true) := rfl
    rw [Text.octal, scan_cons, hopen, scan_cons, hescape, scan_cons, step_octal (by omega),
      scan_cons, step_octal (by omega)]
    rfl

theorem scan_escapeBytes (bytes : List UInt8) (text : List Char) :
    scan (.quoted '"' text false) (bytes.flatMap Text.escapeByte) =
      ([], .quoted '"' ((bytes.flatMap Text.escapeByte).reverse ++ text) false) := by
  induction bytes generalizing text with
  | nil => rfl
  | cons b bytes ih =>
    rw [List.flatMap_cons, scan_append, scan_escapeByte, ih]
    simp

theorem scan_cString (content : String) :
    scan .none (Text.cString content).toList =
      ([], .closed (Text.cString content).toList.reverse) := by
  have hopen : Pending.none.step '"' = ([], .quoted '"' ['"'] false) := rfl
  rw [Text.cString, String.toList_ofList, List.cons_append, scan_cons, hopen, scan_append,
    scan_escapeBytes]
  simp [scan, Pending.step, Pending.extend]

theorem after_cString (content : String) :
    after (Text.cString content) = .closed (Text.cString content).toList.reverse := by
  rw [after, scan_cString]

/-- The string literal for a text is a single token. -/
theorem tokens_cString (content : String) :
    tokens (Text.cString content) = [.quoted (Text.cString content)] := by
  simp [tokens, after_cString, scan_cString, Pending.flush]

/-! ### Texts by their parts -/

/-- The text has the tokens `ts`, and ends in the lexeme `p`. -/
structure Scans (text : String) (ts : List Token) (p : Pending) : Prop where
  tokens_eq : tokens text = ts
  after_eq : after text = p

namespace Scans

variable {u v x : String} {us vs : List Token} {p q : Pending} {t : Token}

/-- A text that is written out is scanned character by character. -/
theorem ofList (cs : List Char) :
    Scans (String.ofList cs) ((scan .none cs).1 ++ (scan .none cs).2.flush) (scan .none cs).2 :=
  ⟨by simp [tokens, after], by simp [after]⟩

/-- Behind a lexeme that nothing continues, a text has its own tokens. -/
theorem append_settled (hu : Scans u us p) (hp : ∀ c, p.extend c = none) (hv : Scans v vs q)
    (hne : v ≠ "") : Scans (u ++ v) (us ++ vs) q := by
  have hbreaks : Breaks u v := fun c _ => hu.after_eq ▸ hp c
  exact ⟨by rw [tokens_append hbreaks, hu.tokens_eq, hv.tokens_eq],
    (after_append hbreaks hne).trans hv.after_eq⟩

/-- Lines one behind the other. -/
theorem line (hu : Scans u us .none) (hv : Scans v vs .none) : Scans (u ++ v) (us ++ vs) .none := by
  by_cases hne : v = ""
  · subst hne
    obtain rfl : vs = [] := hv.tokens_eq.symm
    simpa using hu
  · exact hu.append_settled (fun _ => rfl) hv hne

/-- An operand behind a lexeme that no letter and no digit continues. -/
theorem append_operand (hu : Scans u us p) (hp : ∀ c, isWordPart c → p.extend c = none)
    (hx : IsOperand x) (ht : tokens x = [t]) : Scans (u ++ x) (us ++ [t]) (after x) := by
  obtain ⟨c, cs, hcs, hc⟩ := hx.toList
  have hbreaks : Breaks u x := fun d hd => by
    obtain rfl : c = d := by simpa [hcs] using hd
    exact hu.after_eq ▸ hp c hc
  exact ⟨by rw [tokens_append hbreaks, hu.tokens_eq, ht], after_append hbreaks hx.ne_empty⟩

/-- A text behind an operand, which it does not continue. -/
theorem append_text (hu : Scans u us (after x)) (hx : IsOperand x) (hv : Scans v vs q)
    (hstop : ∃ c ∈ v.toList.head?, Stops c) : Scans (u ++ v) (us ++ vs) q := by
  obtain ⟨c, hc, hstop⟩ := hstop
  have hbreaks : Breaks u v := fun d hd => by
    obtain rfl : c = d := Option.some.inj (hc.symm.trans hd)
    exact hu.after_eq ▸ hx.extend_after hstop
  have hne : v ≠ "" := by
    rintro rfl
    simp at hc
  exact ⟨by rw [tokens_append hbreaks, hu.tokens_eq, hv.tokens_eq],
    (after_append hbreaks hne).trans hv.after_eq⟩

/-- An operand between two texts. -/
theorem around (hu : Scans u us p) (hp : ∀ c, isWordPart c → p.extend c = none)
    (hx : IsOperand x) (ht : tokens x = [t]) (hv : Scans v vs q)
    (hstop : ∃ c ∈ v.toList.head?, Stops c) : Scans (u ++ x ++ v) (us ++ t :: vs) q := by
  have := (hu.append_operand hp hx ht).append_text hx hv hstop
  rwa [List.append_assoc, List.singleton_append] at this

end Scans

end PlZero.C
