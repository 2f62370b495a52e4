import PlZero.Lexer

/-!
# The items of a text

The items of a text are all tokens but the last one, which is the end of the input or a failure
(`Cursor.items_eq_append`). So a text either has a sequence of tokens (`Source.Reads`), or reading
it fails.

A token that has been read is spelled as its class asks (`Token.WellFormed`): a name is a word that
is no keyword, and a number is in range.
-/

namespace PlZero

/-! ### The spelling of tokens -/

theorem isWordPart_of_isWordStart {c : Char} (h : isWordStart c) : isWordPart c := by
  simp only [isWordStart, isWordPart, Char.isAlphanum, Bool.or_eq_true] at h ⊢
  exact h.imp_left .inl

/-- No word begins with a digit. -/
theorem isWordStart_of_isDigit {c : Char} (h : c.isDigit) : isWordStart c = false := by
  by_cases hc : c = '_'
  · subst hc
    exact absurd h (by decide)
  · simp only [Char.isDigit, Bool.and_eq_true, decide_eq_true_eq] at h
    have hdef : isWordStart c = (decide (c.val ≥ 'A'.val ∧ c.val ≤ 'Z'.val) ||
      (decide (c.val ≥ 'a'.val) && decide (c.val ≤ 'z'.val)) || decide (c = '_')) := rfl
    rw [hdef]
    grind

/-- A word: it begins with a letter or an underscore, and goes on with these and with digits. -/
def IsWord (word : String) : Prop :=
  ∃ c cs, word.toList = c :: cs ∧ isWordStart c ∧ ∀ d ∈ cs, isWordPart d

/-- What the spelling of a token guarantees. -/
def Token.WellFormed : Token → Prop
  | .name x => IsWord x ∧ Keyword.ofSpelling? x = none
  | .number value _ => 0 ≤ value ∧ value ≤ maxNumber
  | .text content => content ≠ "" ∧ '\n' ∉ content.toList
  | _ => True

theorem wellFormed_wordToken {word : String} (h : IsWord word) : (wordToken word).WellFormed := by
  unfold wordToken
  split
  · trivial
  · next hk => exact ⟨h, hk⟩

theorem wellFormed_numberToken {digits : List Char} {t : Token} (h : numberToken digits = .ok t) :
    t.WellFormed := by
  simp only [numberToken] at h
  split at h
  · next hle =>
    cases h
    exact ⟨Int.natCast_nonneg _, Int.ofNat_le.mpr hle⟩
  · cases h

theorem wellFormed_readText {content cs : List Char} {t : Token} (hcontent : '\n' ∉ content)
    (h : (readText content cs).1 = .ok t) : t.WellFormed := by
  fun_induction readText content cs with
  | case1 => cases h
  | case2 content rest ih => exact ih (by simpa using hcontent) h
  | case3 => cases h
  | case4 _ _ d ds =>
    cases h
    refine ⟨fun hempty => ?_, by simpa [and_comm] using hcontent⟩
    simpa using congrArg String.toList hempty
  | case5 => cases h
  | case6 content c cs hquote hfeed ih =>
    exact ih (by simpa [eq_comm] using ⟨hfeed, hcontent⟩) h

theorem wellFormed_readToken {c : Char} {cs : List Char} {t : Token}
    (h : (readToken c cs).1 = .ok t) : t.WellFormed := by
  unfold readToken at h
  split at h
  · cases h
    trivial
  · split at h
    · split at h
      · cases h
      · split at h <;> cases h
        trivial
    · split at h
      · exact wellFormed_readText (by simp) h
      · split at h
        · next hstart =>
          cases h
          exact wellFormed_wordToken ⟨c, cs.takeWhile isWordPart, by simp, hstart,
            fun d hd => (List.all_eq_true.mp (List.all_takeWhile (l := cs))) d hd⟩
        · split at h
          · exact wellFormed_numberToken h
          · cases h

/-! ### The items of a cursor -/

namespace Cursor

theorem wellFormed_next {c : Cursor} {t : Token} (h : c.next.1.value = .ok t) : t.WellFormed := by
  simp only [next, afterGap] at h
  split at h
  · simp only at h
    split at h
    · cases h
    · cases h
      trivial
  · exact wellFormed_readToken h

theorem itemsOnto_eq (done : List Item) (c : Cursor) :
    itemsOnto done c = done.reverse ++ items c := by
  rw [items, itemsOnto, itemsOnto.eq_def []]
  split
  · simp
  · next hlast =>
    rw [itemsOnto_eq (c.next.1 :: done), itemsOnto_eq [c.next.1]]
    simp
termination_by c.rest.length
decreasing_by all_goals exact length_next_lt (by simp_all)

/-- The first item is the last one, or the others are those behind it. -/
theorem items_eq (c : Cursor) :
    c.items = if isLast c.next.1 then [c.next.1] else c.next.1 :: c.next.2.items := by
  rw [items, itemsOnto]
  split
  · rfl
  · exact itemsOnto_eq [c.next.1] c.next.2

/-- Each item is the next one of some cursor. -/
theorem exists_next_of_mem {c : Cursor} {i : Item} (h : i ∈ c.items) :
    ∃ c' : Cursor, i = c'.next.1 := by
  rw [items_eq] at h
  cases hlast : isLast c.next.1 with
  | true =>
    rw [hlast] at h
    exact ⟨c, List.mem_singleton.mp h⟩
  | false =>
    rw [hlast] at h
    rcases List.mem_cons.mp h with hi | hi
    · exact ⟨c, hi⟩
    · exact exists_next_of_mem hi
termination_by c.rest.length
decreasing_by exact length_next_lt hlast

/-- The items are tokens of the text, and a last one behind them. -/
theorem items_eq_append (c : Cursor) :
    ∃ (tokens : List (Located Token)) (last : Item),
      c.items = tokens.map (Located.map .ok) ++ [last] ∧ isLast last = true ∧
        ∀ t ∈ tokens, t.value.WellFormed ∧ t.value ≠ .endOfInput := by
  rw [items_eq]
  cases hlast : isLast c.next.1 with
  | true => exact ⟨[], c.next.1, rfl, hlast, by simp⟩
  | false =>
    obtain ⟨tokens, last, hitems, hisLast, hall⟩ := items_eq_append c.next.2
    obtain ⟨line, t, hnext⟩ : ∃ line t, c.next.1 = ⟨line, .ok t⟩ := by
      rcases hnext : c.next.1 with ⟨line, e | t⟩
      · simp [hnext, isLast] at hlast
      · exact ⟨line, t, rfl⟩
    refine ⟨⟨line, t⟩ :: tokens, last, by simp [hitems, hnext, Located.map], hisLast, ?_⟩
    refine List.forall_mem_cons.mpr ⟨⟨wellFormed_next (c := c) (by rw [hnext]), ?_⟩, hall⟩
    rintro rfl
    simp [hnext, isLast] at hlast
termination_by c.rest.length
decreasing_by exact length_next_lt hlast

end Cursor

/-! ### Items one by one -/

/-- Asked again and again, the lexer gives these items and then no more. -/
def Lexer.Gives : Lexer → List Item → Prop
  | l, [] => l.nextItem?.1 = none
  | l, i :: items => l.nextItem?.1 = some i ∧ Gives l.nextItem?.2 items

theorem Lexer.gives_finished {c : Cursor} {items : List Item} :
    (⟨c, true⟩ : Lexer).Gives items ↔ items = [] := by
  cases items <;> simp [Gives, nextItem?]

/-- Read one by one, the items are those of the cursor. -/
theorem Lexer.gives_iff {c : Cursor} {items : List Item} :
    (⟨c, false⟩ : Lexer).Gives items ↔ items = c.items := by
  rw [Cursor.items_eq]
  cases items with
  | nil =>
    refine iff_of_false nofun fun h => ?_
    split at h <;> cases h
  | cons i items =>
    simp only [Gives, nextItem?, Bool.false_eq_true, if_false, Option.some.injEq]
    cases hlast : Cursor.isLast c.next.1 with
    | true => simp [gives_finished, eq_comm]
    | false => simp [gives_iff (c := c.next.2), eq_comm]
termination_by c.rest.length
decreasing_by exact Cursor.length_next_lt hlast

/-! ### The tokens of a text -/

/-- The text consists of the tokens `tokens`: the lexer gives them and then the end of the input,
and nothing stops it before. -/
def Source.Reads (source : Source) (tokens : List Token) : Prop :=
  ∃ items, (Lexer.start source.text).Gives items ∧
    items.map Located.value = tokens.map .ok ++ [.ok .endOfInput]

theorem Source.reads_iff {source : Source} {tokens : List Token} :
    source.Reads tokens ↔
      source.items.map Located.value = tokens.map .ok ++ [.ok .endOfInput] := by
  simp [Source.Reads, Lexer.start, Lexer.gives_iff, Source.items]

theorem tokens_of_map_ok {ts us : List Token}
    (h : ts.map (.ok : Token → Except LexicalError Token) = us.map .ok) : ts = us :=
  List.map_inj_right (fun _ _ => Except.ok.inj) |>.mp h

theorem Source.Reads.wellFormed {source : Source} {tokens : List Token} (h : source.Reads tokens) :
    ∀ t ∈ tokens, t.WellFormed ∧ t ≠ .endOfInput := by
  obtain ⟨read, last, hitems, -, hall⟩ := Cursor.items_eq_append (.start source.text)
  rw [Source.reads_iff, Source.items, hitems] at h
  rw [List.map_append] at h
  have hread := List.append_inj_left' h rfl
  have hmap : read.map Located.value = tokens :=
    tokens_of_map_ok (by simpa [Function.comp_def] using hread)
  rw [← hmap]
  intro t ht
  obtain ⟨located, hlocated, rfl⟩ := List.mem_map.mp ht
  exact hall located hlocated

/-- A token among the items of a text is spelled as its class asks. -/
theorem Source.wellFormed_of_mem {source : Source} {line : Line} {t : Token}
    (h : ⟨line, .ok t⟩ ∈ source.items) : t.WellFormed := by
  obtain ⟨c, hc⟩ := Cursor.exists_next_of_mem h
  exact Cursor.wellFormed_next (c := c) (by rw [← hc])

/-- A text has one sequence of tokens at most. -/
theorem Source.Reads.unique {source : Source} {tokens tokens' : List Token}
    (h : source.Reads tokens) (h' : source.Reads tokens') : tokens = tokens' :=
  tokens_of_map_ok
    (List.append_inj_left' ((Source.reads_iff.mp h).symm.trans (Source.reads_iff.mp h')) rfl)

/-- A text consists of tokens, or the last of its items is a failure. -/
theorem Source.items_cases (source : Source) :
    (∃ tokens, source.Reads tokens) ∨
      ∃ (tokens : List Token) (e : LexicalError),
        source.items.map Located.value = tokens.map .ok ++ [.error e] ∧
        .endOfInput ∉ tokens := by
  obtain ⟨read, ⟨line, last⟩, hitems, hlast, hall⟩ := Cursor.items_eq_append (.start source.text)
  have hvalues : source.items.map Located.value =
      (read.map Located.value).map .ok ++ [last] := by
    simp [Source.items, hitems, Function.comp_def]
  cases last with
  | error e =>
    refine .inr ⟨read.map Located.value, e, hvalues, fun hmem => ?_⟩
    obtain ⟨located, hlocated, hend⟩ := List.mem_map.mp hmem
    exact (hall located hlocated).2 hend
  | ok t =>
    obtain rfl : t = .endOfInput := by
      cases t <;> simp_all [Cursor.isLast]
    exact .inl ⟨_, Source.reads_iff.mpr hvalues⟩

end PlZero
