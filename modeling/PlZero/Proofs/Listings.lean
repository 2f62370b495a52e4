import Mathlib.Data.List.Basic
import PlZero.Proofs.Agreement
import PlZero.Proofs.Respelling
import PlZero.Proofs.Sinks

/-!
# Listings tell the tokens

An entry of a listing can be read back (`Listing.content_injective`). The line ends at the first
bar, the class at the first closing parenthesis, and the class tells whether there are quotes around
the spelling. The spelling tells the token. Entries hold one line feed each, which is their end, so
a listing falls into its entries (`Listing.join_injective`). This takes no more than that the tokens
have been read from some text.

So two listings that are the same list the same tokens on the same lines, also if reading fails,
when the tokens in front of the failure are listed (`listing_tells_tokens`).
-/

namespace PlZero

variable {source : Source} {t u : Token}

/-! ### Separators -/

/-- What stands in front of the first separator is told from what stands behind it. -/
theorem eq_of_append_cons {α : Type} {a : α} {xs xs' ys ys' : List α} (hxs : a ∉ xs)
    (hxs' : a ∉ xs') (h : xs ++ a :: ys = xs' ++ a :: ys') : xs = xs' ∧ ys = ys' := by
  induction xs generalizing xs' with
  | nil =>
    cases xs' with
    | nil => exact ⟨rfl, (List.cons.inj h).2⟩
    | cons x' xs' => exact absurd ((List.cons.inj h).1 ▸ List.mem_cons_self) hxs'
  | cons x xs ih =>
    cases xs' with
    | nil => exact absurd ((List.cons.inj h).1 ▸ List.mem_cons_self) hxs
    | cons x' xs' =>
      obtain ⟨rfl, hrest⟩ := List.cons.inj h
      obtain ⟨rfl, hys⟩ := ih (List.not_mem_of_not_mem_cons hxs)
        (List.not_mem_of_not_mem_cons hxs') hrest
      exact ⟨rfl, hys⟩

theorem repr_injective {m n : Nat} (h : Nat.repr m = Nat.repr n) : m = n := by
  have hdigits : Nat.toDigits 10 m = Nat.toDigits 10 n := by
    rw [← Nat.toList_repr, h, Nat.toList_repr]
  rw [← @Nat.ofDigitChars_ten_toDigits m, hdigits, Nat.ofDigitChars_ten_toDigits]

/-! ### Classes -/

/-- The classes are words of capitals. -/
theorem Token.isUpper_of_mem_className (t : Token) : ∀ c ∈ t.className.toList, c.isUpper := by
  have hkeyword : ∀ k ∈ Keyword.all, k.className.toList.all Char.isUpper := by decide +kernel
  have hmark : ∀ m ∈ Mark.all, m.className.toList.all Char.isUpper := by decide +kernel
  have hother : ∀ word ∈ ["IDENT", "NUMBER", "STRING", "EOF"], word.toList.all Char.isUpper := by
    decide +kernel
  refine List.all_eq_true.mp ?_
  cases t with
  | keyword k => exact hkeyword k k.mem_all
  | mark m => exact hmark m m.mem_all
  | _ => exact hother _ (by simp [className])

theorem Token.not_mem_className (t : Token) {c : Char} (hc : c.isUpper = false) :
    c ∉ t.className.toList := fun hmem =>
  absurd (t.isUpper_of_mem_className c hmem) (by simp [hc])

/-- The classes of the tokens that stand bare. -/
def bareClasses : List String := "STRING" :: "EOF" :: Mark.all.map Mark.className

/-- **The class tells whether a spelling stands between quotes.** -/
theorem Token.isQuotedInListing_iff (t : Token) :
    t.isQuotedInListing ↔ t.className ∉ bareClasses := by
  have hkeyword : ∀ k ∈ Keyword.all, k.className ∉ bareClasses := by decide +kernel
  cases t with
  | keyword k => exact iff_of_true rfl (hkeyword k k.mem_all)
  | mark m =>
    have hmark : m.className ∈ bareClasses := by simp [bareClasses, Mark.mem_all]
    exact iff_of_false nofun fun hnot => hnot hmark
  | name => exact iff_of_true rfl (show "IDENT" ∉ bareClasses by decide)
  | number => exact iff_of_true rfl (show "NUMBER" ∉ bareClasses by decide)
  | text => exact iff_of_false nofun fun hnot => hnot List.mem_cons_self
  | endOfInput => exact iff_of_false nofun fun hnot => hnot (.tail _ List.mem_cons_self)

/-! ### Entries -/

namespace Listing

/-- The spelling of a token as its entry shows it. -/
def shown (t : Token) : String := if t.isQuotedInListing then "'" ++ t.lexeme ++ "'" else t.lexeme

/-- An entry up to its line feed. -/
def content (t : Located Token) : String :=
  "(" ++ Nat.repr t.line.toNat ++ "|" ++ t.value.className ++ ") " ++ shown t.value

theorem entry_eq (t : Located Token) : entry t = content t ++ "\n" := rfl

theorem toList_content (t : Located Token) :
    (content t).toList = '(' :: ((Nat.repr t.line.toNat).toList ++
      '|' :: (t.value.className.toList ++ ')' :: ' ' :: (shown t.value).toList)) := by
  simp [content]

/-- A shown spelling tells the token, among those of its class. -/
theorem eq_of_shown (ht : t.IsRead) (hu : u.IsRead) (hclass : t.className = u.className)
    (h : shown t = shown u) : t = u := by
  have hquoted : t.isQuotedInListing = u.isQuotedInListing := by
    rw [Bool.eq_iff_iff, t.isQuotedInListing_iff, u.isQuotedInListing_iff, hclass]
  refine ht.eq_of_lexeme hu ?_
  simp only [shown, hquoted] at h
  split at h
  · simpa [← String.toList_inj] using h
  · exact h

/-- **An entry tells its token** and the line of it. -/
theorem content_injective {t u : Located Token} (ht : t.value.IsRead) (hu : u.value.IsRead)
    (h : content t = content u) : t = u := by
  have hbar (n : Nat) : '|' ∉ (Nat.repr n).toList := fun hmem =>
    absurd (isDigit_of_mem_repr hmem) (by decide)
  obtain ⟨line, t⟩ := t
  obtain ⟨line', u⟩ := u
  have hchars := congrArg String.toList h
  rw [toList_content, toList_content, List.cons.injEq] at hchars
  -- A number has no bar in it, and a class no parenthesis.
  obtain ⟨hline, hrest⟩ := eq_of_append_cons (hbar _) (hbar _) hchars.2
  obtain ⟨hclass, hshown⟩ := eq_of_append_cons (t.not_mem_className (by decide))
    (u.not_mem_className (by decide)) hrest
  obtain rfl : line = line' := UInt32.toNat_inj.mp (repr_injective (String.toList_inj.mp hline))
  obtain rfl : t = u := eq_of_shown ht hu (String.toList_inj.mp hclass)
    (String.toList_inj.mp (List.cons.inj hshown).2)
  rfl

theorem unbroken_content {t : Located Token} (ht : t.value.IsRead) : Unbroken (content t) := by
  have hlexeme : Unbroken t.value.lexeme := ht.unbroken_lexeme
  have hshown : Unbroken (shown t.value) := by
    unfold shown
    split
    · exact hlexeme.within (by decide) (by decide)
    · exact hlexeme
  have hline : Unbroken ("(" ++ Nat.repr t.line.toNat ++ "|") :=
    (unbroken_repr _).within (by decide) (by decide)
  have hclass : Unbroken t.value.className := t.value.not_mem_className rfl
  exact (hclass.within hline (by decide)).append hshown

theorem isLine_entry {t : Located Token} (ht : t.value.IsRead) : IsLine (entry t) := by
  rw [entry_eq, isLine_append_iff]
  exact unbroken_content ht

/-- **A row of entries tells its tokens.** -/
theorem join_injective {ts us : List (Located Token)} (hts : ∀ t ∈ ts, t.value.IsRead)
    (hus : ∀ u ∈ us, u.value.IsRead)
    (h : String.join (ts.map entry) = String.join (us.map entry)) : ts = us := by
  have hentries (ts : List (Located Token)) :
      (String.join (ts.map entry)).toList = ts.flatMap fun t => (content t).toList ++ ['\n'] := by
    simp [String.toList_join, List.flatMap_map, entry_eq]
  have hchars := congrArg String.toList h
  rw [hentries, hentries] at hchars
  clear h hentries
  induction ts generalizing us with
  | nil =>
    cases us with
    | nil => rfl
    | cons u us => simp at hchars
  | cons t ts ih =>
    cases us with
    | nil => simp at hchars
    | cons u us =>
      obtain ⟨ht, hts⟩ := List.forall_mem_cons.mp hts
      obtain ⟨hu, hus⟩ := List.forall_mem_cons.mp hus
      simp only [List.flatMap_cons, List.append_assoc, List.singleton_append] at hchars
      -- The first line feed of both texts is the end of their first entries.
      obtain ⟨hcontent, hrest⟩ :=
        eq_of_append_cons (unbroken_content ht) (unbroken_content hu) hchars
      rw [content_injective ht hu (String.toList_inj.mp hcontent), ih hts hus hrest]

end Listing

/-! ### Listings -/

/-- The lexer gives the tokens `tokens`, each with its line, and behind them the last item. -/
def Source.Gives (source : Source) (tokens : List (Located Token)) (last : Item) : Prop :=
  (Lexer.start source.text).Gives (tokens.map (Located.map .ok) ++ [last])

variable {tokens : List (Located Token)} {last : Item}

namespace Source

theorem gives_iff : source.Gives tokens last ↔
    source.items = tokens.map (Located.map .ok) ++ [last] :=
  Lexer.gives_iff.trans eq_comm

theorem exists_gives (source : Source) : ∃ tokens last, source.Gives tokens last := by
  obtain ⟨tokens, last, hitems, -⟩ := Cursor.items_eq_append (.start source.text)
  exact ⟨tokens, last, gives_iff.mpr hitems⟩

/-- What ends the tokens is the end of the input or a failure. -/
theorem Gives.value_last (h : source.Gives tokens last) :
    last.value = .ok .endOfInput ∨ ∃ e, last.value = .error e := by
  obtain ⟨before, last', hitems, hlast, -⟩ := source.items_eq_concat
  obtain ⟨-, hsame⟩ := List.append_inj' ((gives_iff.mp h).symm.trans hitems) rfl
  obtain rfl : last = last' := (List.cons.inj hsame).1
  obtain ⟨line, value⟩ := last
  cases value with
  | error e => exact .inr ⟨e, rfl⟩
  | ok t => cases t <;> first | exact .inl rfl | cases hlast

theorem Gives.isRead (h : source.Gives tokens last) : ∀ t ∈ tokens, t.value.IsRead := by
  have hvalues : source.items.map Located.value =
      (tokens.map Located.value).map .ok ++ [last.value] := by
    simp [gives_iff.mp h, Function.comp_def]
  exact fun t ht => isRead_of_values hvalues _ (List.mem_map_of_mem ht)

/-- The listing consists of the entries of the tokens. -/
theorem Gives.text_listTokens (h : source.Gives tokens last) :
    (listTokens source).text = String.join (tokens.map Listing.entry) := by
  have hlast : Cursor.isLast last := by
    obtain ⟨line, value⟩ := last
    rcases h.value_last with rfl | ⟨e, rfl⟩ <;> rfl
  have hne : ∀ t ∈ tokens, t.value ≠ .endOfInput := fun t ht => (h.isRead t ht).ne_endOfInput
  rw [Account.text, listTokens, gives_iff.mp h, Listing.filterMap_entry? hne hlast, List.map_map]
  rfl

theorem Gives.bytes_listing (h : source.Gives tokens last) :
    ((listTokens source).deliver .unlimited).bytes =
      (Text.utf8 (String.join (tokens.map Listing.entry))).toArray := by
  rw [(deliver_unlimited _).2, h.text_listTokens]

theorem Gives.failure_listing (h : source.Gives tokens last) (f : Located Failure) :
    ((listTokens source).deliver .unlimited).failure? = some f ↔
      ∃ e, f.value = .lexical e ∧ last = ⟨f.line, .error e⟩ := by
  rw [listing_failure_iff, gives_iff.mp h]
  refine exists_congr fun e => ?_
  rw [exists_and_left]
  refine and_congr_right fun _ => ⟨?_, ?_⟩
  · rintro ⟨before, heq⟩
    exact (List.cons.inj (List.append_inj' heq rfl).2).1
  · rintro rfl
    exact ⟨_, rfl⟩

theorem Gives.finished_listing (h : source.Gives tokens last) :
    ((listTokens source).deliver .unlimited).failure? = none ↔ last.value = .ok .endOfInput := by
  rw [Option.eq_none_iff_forall_ne_some]
  constructor
  · intro hnone
    refine h.value_last.resolve_right ?_
    rintro ⟨e, he⟩
    have hlast : last = ⟨last.line, .error e⟩ := by rw [← he]
    exact hnone ⟨last.line, .lexical e⟩ ((h.failure_listing _).mpr ⟨e, rfl, hlast⟩)
  · intro hend f hf
    obtain ⟨e, -, rfl⟩ := (h.failure_listing f).mp hf
    cases hend

end Source

/-- **A listing tells the tokens.** It has a line for each token in front of what ends them, and
fails just if this is a failure; two listings that are the same list the same tokens, with their
lines, the digits of their numbers and the content of their quoted texts. -/
theorem listing_tells_tokens (source : Source) :
    ∃ tokens last, source.Gives tokens last ∧
      ((listTokens source).deliver .unlimited).bytes =
        (Text.utf8 (String.join (tokens.map Listing.entry))).toArray ∧
      (∀ t ∈ tokens, IsLine (Listing.entry t)) ∧
      (((listTokens source).deliver .unlimited).failure? = none ↔
        last.value = .ok .endOfInput) ∧
      (∀ f, ((listTokens source).deliver .unlimited).failure? = some f ↔
        ∃ e, f.value = .lexical e ∧ last = ⟨f.line, .error e⟩) ∧
      ∀ other tokens' last', Source.Gives other tokens' last' →
        ((listTokens other).deliver .unlimited).bytes =
          ((listTokens source).deliver .unlimited).bytes → tokens' = tokens := by
  obtain ⟨tokens, last, hgives⟩ := source.exists_gives
  refine ⟨tokens, last, hgives, hgives.bytes_listing,
    fun t ht => Listing.isLine_entry (hgives.isRead t ht), hgives.finished_listing,
    hgives.failure_listing, fun other tokens' last' hgives' heq => ?_⟩
  rw [hgives'.bytes_listing, hgives.bytes_listing] at heq
  exact Listing.join_injective hgives'.isRead hgives.isRead
    (Text.utf8_injective (List.toArray_inj heq))

/-- Two texts that have the same listing, though only one of them has a comment, and the other one a
separator in its number. -/
theorem listing_tells_tokens_separator :
    let source : Source := ⟨"", "a:=1_000'|'"⟩
    let other : Source := ⟨"", "a := 1000 \x7b)\x7d '|'"⟩
    ∃ tokens last tokens' last', source.Gives tokens last ∧ other.Gives tokens' last' ∧
      ((listTokens other).deliver .unlimited).bytes =
        ((listTokens source).deliver .unlimited).bytes ∧ tokens' = tokens := by
  intro source other
  have hsame : ((listTokens other).deliver .unlimited).bytes =
      ((listTokens source).deliver .unlimited).bytes := by decide +kernel
  obtain ⟨tokens, last, hgives, -, -, -, -, htells⟩ := listing_tells_tokens source
  obtain ⟨tokens', last', hgives'⟩ := other.exists_gives
  exact ⟨tokens, last, tokens', last', hgives, hgives', hsame,
    htells other tokens' last' hgives' hsame⟩

end PlZero
