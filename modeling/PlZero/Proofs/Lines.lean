import Mathlib.Data.List.Pairwise
import PlZero.Proofs.Positions

/-!
# Lines

Every item stands on the line on which it begins: the tokens, the end of the input, and the failure
where a text has no token (`Source.ReadBehind`). One failure is an exception. That a comment is
never closed is found out at the end of the text, and there it is reported (`Malformed.next_eq`).

A line is a word of 32 bits. As long as a text has fewer line feeds than that, its lines are counted
without wrapping around (`toNat_lineBehind`), and they never decrease from one item to the next
(`Divides.pairwise_lines`).
-/

namespace PlZero

variable {source : Source} {k : Nat} {front cs gap rest : List Char} {pieces : List Piece}
  {e : LexicalError} {i : Item}

/-! ### Counting -/

theorem toNat_lineBehind (h : front.count '\n' < UInt32.size - 1) :
    (lineBehind front).toNat = 1 + front.count '\n' := by
  rw [lineBehind, UInt32.toNat_ofNat_of_lt' (Nat.add_lt_of_lt_sub h), Nat.add_comm]

theorem count_newline_le (h : front <+: cs) : front.count '\n' ≤ cs.count '\n' :=
  h.sublist.count_le '\n'

/-- What stands farther behind stands on no line before. -/
theorem lineBehind_le (h : (front ++ cs).count '\n' < UInt32.size - 1) :
    lineBehind front ≤ lineBehind (front ++ cs) := by
  have hle := count_newline_le (List.prefix_append front cs)
  rw [UInt32.le_iff_toNat_le, toNat_lineBehind h, toNat_lineBehind (Nat.lt_of_le_of_lt hle h)]
  exact Nat.add_le_add_left hle 1

/-! ### Where a text has no token -/

theorem Malformed.ne_nil (h : Malformed rest e) : rest ≠ [] := by
  cases h with
  | numberTooLarge _ hlexeme =>
    obtain ⟨c, cs, rfl, -⟩ := hlexeme.head
    nofun
  | _ => nofun

/-- Only a comment is never closed. -/
theorem Malformed.head_of_unclosedComment (h : Malformed rest .unclosedComment) :
    rest.head? = some '{' := by
  cases h with
  | unclosedComment => rfl
  | numberTooLarge _ hlexeme => cases hlexeme

/-- The text up to which the line feeds in front of a failure are counted: up to what cannot be
read, and for a comment that is never closed all of the text. -/
def LexicalError.countedText (e : LexicalError) (front rest : List Char) : List Char :=
  if e = .unclosedComment then front ++ rest else front

/-- A failure is reported on the line where it begins, or for a comment at the end of the text. -/
theorem Malformed.next_eq (hgap : IsLongestGap gap rest) (h : Malformed rest e)
    (front : List Char) :
    (⟨rest, lineBehind front⟩ : Cursor).next.1 =
      ⟨lineBehind (e.countedText front rest), .error e⟩ := by
  obtain ⟨c, cs, rfl⟩ := List.exists_cons_of_ne_nil h.ne_nil
  obtain ⟨hblank, hcomment⟩ := hgap.head
  by_cases hopen : c = '{'
  · subst hopen
    obtain rfl := h.eq_unclosedComment
    -- The failure is found behind all that is skipped, so the line feeds of the comment count.
    have hbrace : (lineBehind front).after '{' = lineBehind front := rfl
    rw [LexicalError.countedText, if_pos rfl, lineBehind_append, List.foldl_cons, hbrace]
    simp [Cursor.next, skipGap, skipGap_unclosed (hcomment rfl), Cursor.afterGap]
  · have hclosed : e ≠ .unclosedComment := by
      rintro rfl
      exact hopen (Option.some.inj h.head_of_unclosedComment)
    rw [LexicalError.countedText, if_neg hclosed, Cursor.next_cons cs _ hopen hblank,
      readToken_of_malformed hopen h]

/-- Where a text has no token behind a gap, there is nothing but the failure. -/
theorem Malformed.items_eq (hgap : IsLongestGap gap rest) (h : Malformed rest e)
    (front : List Char) :
    (⟨gap ++ rest, lineBehind front⟩ : Cursor).items =
      [⟨lineBehind (e.countedText (front ++ gap) rest), .error e⟩] := by
  rw [Cursor.items_eq, Cursor.next_of_isGap hgap.1, ← lineBehind_append, h.next_eq hgap]
  rfl

/-- Where a text has no token, it stops behind the last piece and a gap. -/
theorem Divides.exists_stop (h : Divides cs pieces (.error e)) :
    ∃ gap rest, cs = pieces.flatMap Piece.chars ++ (gap ++ rest) ∧ IsLongestGap gap rest ∧
      Malformed rest e := by
  generalize hlast : Except.error e = last at h
  induction h with
  | done => cases hlast
  | @stop gap rest e' hgap hrest hnone hmalformed =>
    cases hlast
    exact ⟨gap, rest, rfl, hgap, hmalformed⟩
  | token _ _ _ ih =>
    obtain ⟨gap, rest, rfl, hstop⟩ := ih hlast
    exact ⟨gap, rest, by simp [Piece.chars], hstop⟩

/-- The last item of a text that stops is its failure. -/
theorem Divides.getLast?_items (h : Divides cs pieces (.error e))
    (hcs : cs = pieces.flatMap Piece.chars ++ (gap ++ rest)) (hgap : IsLongestGap gap rest)
    (hmalformed : Malformed rest e) (front : List Char) :
    (⟨cs, lineBehind front⟩ : Cursor).items.getLast? =
      some ⟨lineBehind (e.countedText (front ++ (pieces.flatMap Piece.chars ++ gap)) rest),
        .error e⟩ := by
  generalize hlast : Except.error e = last at h
  induction h generalizing front with
  | done => cases hlast
  | stop =>
    cases hlast
    rw [List.flatMap_nil, List.nil_append] at hcs ⊢
    rw [hcs, hmalformed.items_eq hgap]
    rfl
  | @token gap' lexeme rest' t pieces last hgap' htoken hrest ih =>
    rw [List.flatMap_cons, Piece.chars] at hcs
    simp only [List.append_assoc] at hcs
    have hbehind := List.append_cancel_left (List.append_cancel_left hcs)
    have hitems := ih hbehind (front ++ (gap' ++ lexeme)) hlast
    rw [lineBehind_append] at hitems
    rw [items_of_tokenAt hgap'.1 htoken, List.getLast?_cons, hitems]
    simp [Piece.chars]

/-- **Lines never decrease** from one item to the next, as long as their numbers do not. -/
theorem Divides.pairwise_lines {last : Except LexicalError Token} (h : Divides cs pieces last)
    (hcount : (front ++ cs).count '\n' < UInt32.size - 1) :
    (lineBehind front :: (⟨cs, lineBehind front⟩ : Cursor).items.map Located.line).Pairwise
      (· ≤ ·) := by
  induction h generalizing front with
  | @done gap hgap =>
    have hnext := Cursor.next_of_isGap hgap (lineBehind front) []
    rw [List.append_nil, ← lineBehind_append] at hnext
    rw [Cursor.items_eq, hnext]
    exact List.pairwise_pair.mpr (lineBehind_le hcount)
  | @stop gap rest e hgap _ _ hmalformed =>
    rw [hmalformed.items_eq hgap]
    refine List.pairwise_pair.mpr ?_
    unfold LexicalError.countedText
    split
    · rw [List.append_assoc]
      exact lineBehind_le hcount
    · refine lineBehind_le (Nat.lt_of_le_of_lt (count_newline_le ?_) hcount)
      exact (List.prefix_append_right_inj front).mpr (List.prefix_append gap rest)
  | @token gap lexeme rest t pieces last hgap htoken hrest ih =>
    have hfront : (front ++ gap).count '\n' ≤ (front ++ (gap ++ (lexeme ++ rest))).count '\n' :=
      count_newline_le (by simp)
    -- A lexeme has no line feed, so the line behind it is the one on which it begins.
    have hline :
        (gap ++ lexeme).foldl Line.after (lineBehind front) = lineBehind (front ++ gap) := by
      rw [List.foldl_append, ← lineBehind_append,
        foldl_after_of_not_mem htoken.2.newline_not_mem]
    have hitems := @ih (front ++ (gap ++ lexeme)) (by simpa using hcount)
    rw [lineBehind_append, hline] at hitems
    rw [items_of_tokenAt hgap.1 htoken, ← lineBehind_append, hline]
    exact .cons_cons_of_trans (lineBehind_le (Nat.lt_of_le_of_lt hfront hcount)) hitems

/-! ### Items -/

/-- The item with this number, be it a token, the end of the input or a failure, is read from what
stands behind the text `front`. -/
inductive Source.ReadBehind (source : Source) : Nat → List Char → Prop
  | begins {k : Nat} {front : List Char} (begins : source.Begins k front) :
    source.ReadBehind k front
  | stops {pieces : List Piece} {gap rest : List Char} {e : LexicalError}
    (divides : Divides source.text.toList pieces (.error e))
    (text_eq : source.text.toList = pieces.flatMap Piece.chars ++ (gap ++ rest))
    (longest : IsLongestGap gap rest) (malformed : Malformed rest e) :
    source.ReadBehind pieces.length (pieces.flatMap Piece.chars ++ gap)

theorem Source.Begins.exists_value (h : source.Begins k front) (hi : source.items[k]? = some i) :
    ∃ t, i.value = .ok t := by
  cases h with
  | token divides piece_eq =>
    rw [Source.getElem?_items divides piece_eq] at hi
    exact ⟨_, by rw [← Option.some.inj hi]⟩
  | endOfInput divides =>
    obtain ⟨end_, hlast, -⟩ := Source.getElem?_items_length divides
    rw [hlast] at hi
    exact ⟨_, by rw [← Option.some.inj hi]⟩

/-- Every item is read from some place in the text. -/
theorem Source.exists_readBehind (h : source.items[k]? = some i) :
    ∃ front, source.ReadBehind k front := by
  obtain ⟨pieces, last, divides⟩ := exists_division source.text.toList
  rcases Nat.lt_or_eq_of_le (Source.le_length_of_item divides h) with hlt | rfl
  · exact ⟨_, .begins (.token divides (List.getElem?_eq_getElem hlt))⟩
  · cases last with
    | ok t =>
      obtain rfl := divides.eq_endOfInput
      exact ⟨_, .begins (.endOfInput divides)⟩
    | error e =>
      obtain ⟨gap, rest, text_eq, longest, malformed⟩ := divides.exists_stop
      exact ⟨_, .stops divides text_eq longest malformed⟩

theorem Source.ReadBehind.isPrefix (h : source.ReadBehind k front) :
    front <+: source.text.toList := by
  cases h with
  | begins hbegins =>
    cases hbegins with
    | token divides piece_eq =>
      obtain ⟨rest, htext, -⟩ := divides.exists_rest piece_eq
      exact ⟨_, htext.symm⟩
    | endOfInput => exact List.prefix_rfl
  | stops _ text_eq => exact ⟨_, by rw [text_eq, List.append_assoc]⟩

/-- The line of an item is that of the text that it is read behind, or for a comment that is never
closed that of the end of the text. -/
theorem Source.ReadBehind.line_eq (h : source.ReadBehind k front)
    (hi : source.items[k]? = some i) :
    i.line = lineBehind
      (if i.value = .error .unclosedComment then source.text.toList else front) := by
  cases h with
  | begins hbegins =>
    obtain ⟨t, ht⟩ := hbegins.exists_value hi
    rw [hbegins.line_eq hi, ht, if_neg nofun]
  | @stops pieces gap rest e divides text_eq longest malformed =>
    have hlast := divides.getLast?_items text_eq longest malformed []
    have hitem : source.items.getLast? = some i := by
      rw [List.getLast?_eq_getElem?, Source.length_items_of_divides divides]
      exact hi
    rw [← Option.some.inj (hlast.symm.trans hitem)]
    simp [LexicalError.countedText, text_eq]

/-- **The lexer counts the lines**: every item it gives stands on line one and as many more as there
are line feeds in front of it, where a comment that is never closed is counted to the end of the
text. So lines never decrease. This holds as long as line numbers do not wrap around. -/
theorem line_of_gives (hcount : source.text.toList.count '\n' < UInt32.size - 1) :
    ∃ items, (Lexer.start source.text).Gives items ∧
      (∀ k i, items[k]? = some i →
        (∃ front, source.ReadBehind k front) ∧
          ∀ front, source.ReadBehind k front →
            i.line.toNat = 1 + (if i.value = .error .unclosedComment then source.text.toList
              else front).count '\n') ∧
        (items.map Located.line).Pairwise (· ≤ ·) := by
  refine ⟨source.items, Lexer.gives_iff.mpr rfl, fun k i hi => ?_, ?_⟩
  · refine ⟨Source.exists_readBehind hi, fun front hfront => ?_⟩
    rw [hfront.line_eq hi, toNat_lineBehind]
    refine Nat.lt_of_le_of_lt (count_newline_le ?_) hcount
    split
    · exact List.prefix_rfl
    · exact hfront.isPrefix
  · obtain ⟨pieces, last, divides⟩ := exists_division source.text.toList
    have hlines : (lineBehind [] :: source.items.map Located.line).Pairwise (· ≤ ·) :=
      divides.pairwise_lines hcount
    exact (List.pairwise_cons.mp hlines).2

/-- A comment reaches over two lines, and a colon ends the third one: the failure is that of the
colon, which stands behind two line feeds. -/
theorem line_of_gives_colon :
    ∃ front, Source.ReadBehind ⟨"", "a\n\x7b\n\x7d:\n"⟩ 1 front ∧ front.count '\n' = 2 := by
  obtain ⟨items, hgives, hlines, -⟩ :=
    @line_of_gives ⟨"", "a\n\x7b\n\x7d:\n"⟩ (by decide +kernel)
  have hitem : items[1]? = some ⟨3, .error (.brokenAssignment "\n")⟩ := by
    rw [Lexer.gives_iff.mp hgives]
    decide +kernel
  obtain ⟨⟨front, hfront⟩, hline⟩ := hlines 1 _ hitem
  have hcount : 3 = 1 + front.count '\n' := hline front hfront
  exact ⟨front, hfront, (Nat.add_left_cancel hcount).symm⟩

end PlZero
