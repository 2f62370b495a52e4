import PlZero.Proofs.LongestMatch

/-!
# Positions

Where the items of a text begin (`Source.Begins`), and on which line that is: the line of an item is
one and as many more as there are line feeds in front of it (`Source.Begins.line_eq`).
-/

namespace PlZero

/-! ### Lines -/

/-- The line of what stands behind this text. -/
def lineBehind (front : List Char) : Line := UInt32.ofNat (front.count '\n' + 1)

theorem foldl_after (cs : List Char) (line : Line) :
    cs.foldl Line.after line = line + UInt32.ofNat (cs.count '\n') := by
  induction cs generalizing line with
  | nil => simp
  | cons c cs ih =>
    rw [List.foldl_cons, ih, Line.after]
    by_cases hc : c = '\n'
    · rw [if_pos hc, hc, List.count_cons_self, UInt32.ofNat_add, UInt32.add_assoc,
        UInt32.add_comm 1]
      rfl
    · rw [if_neg hc, List.count_cons_of_ne hc]

theorem lineBehind_append (front cs : List Char) :
    lineBehind (front ++ cs) = cs.foldl Line.after (lineBehind front) := by
  rw [foldl_after, lineBehind, lineBehind, ← UInt32.ofNat_add, List.count_append,
    Nat.add_right_comm]

/-! ### Pieces -/

/-- What stands in front of the lexeme of a piece: the pieces before it, and its gap. -/
def frontOf (pieces : List Piece) (k : Nat) (p : Piece) : List Char :=
  (pieces.take k).flatMap Piece.chars ++ p.gap

/-- The item of a piece is its token, on the line of what stands in front of it. -/
theorem getElem?_itemsFrom (pieces : List Piece) (front : List Char) (k : Nat) :
    (itemsFrom (lineBehind front) pieces)[k]? =
      pieces[k]?.map fun p => ⟨lineBehind (front ++ frontOf pieces k p), .ok p.token⟩ := by
  induction pieces generalizing front k with
  | nil => simp [itemsFrom]
  | cons p ps ih =>
    rw [itemsFrom, ← lineBehind_append, ← lineBehind_append]
    cases k with
    | zero => simp [frontOf]
    | succ k => simp [ih, frontOf]

theorem length_itemsFrom (line : Line) (pieces : List Piece) :
    (itemsFrom line pieces).length = pieces.length := by
  induction pieces generalizing line with
  | nil => rfl
  | cons p ps ih => simp [itemsFrom, ih]

/-- Behind what stands in front of it, the text goes on with the lexeme of a piece. -/
theorem Divides.exists_rest {cs : List Char} {pieces : List Piece}
    {last : Except LexicalError Token} {k : Nat} {p : Piece} (h : Divides cs pieces last)
    (hpiece : pieces[k]? = some p) :
    ∃ rest, cs = frontOf pieces k p ++ (p.lexeme ++ rest) ∧ TokenAt p.lexeme rest p.token := by
  induction h generalizing k with
  | done | stop => cases hpiece
  | @token gap lexeme rest t pieces last hgap htoken hrest ih =>
    cases k with
    | zero =>
      obtain rfl := Option.some.inj hpiece
      exact ⟨rest, rfl, htoken⟩
    | succ k =>
      obtain ⟨behind, hbehind, hlexeme⟩ := ih hpiece
      refine ⟨behind, ?_, hlexeme⟩
      rw [hbehind]
      simp [frontOf, Piece.chars]

/-- What ends a text is no token but the end of the input. -/
theorem Divides.eq_endOfInput {cs : List Char} {pieces : List Piece} {t : Token}
    (h : Divides cs pieces (.ok t)) : t = .endOfInput := by
  generalize hlast : Except.ok t = last at h
  induction h with
  | done =>
    cases hlast
    rfl
  | stop => cases hlast
  | token _ _ _ ih => exact ih hlast

/-! ### Items -/

/-- The item with this number begins behind the text `front`. -/
inductive Source.Begins (source : Source) : Nat → List Char → Prop
  | token {pieces : List Piece} {last : Except LexicalError Token} {k : Nat} {p : Piece}
    (divides : Divides source.text.toList pieces last) (piece_eq : pieces[k]? = some p) :
    source.Begins k (frontOf pieces k p)
  | endOfInput {pieces : List Piece}
    (divides : Divides source.text.toList pieces (.ok .endOfInput)) :
    source.Begins pieces.length source.text.toList

variable {source : Source} {k : Nat} {front : List Char} {i : Item} {line : Line} {t : Token}
  {x : String}

theorem Source.getElem?_items {pieces : List Piece} {last : Except LexicalError Token} {p : Piece}
    (divides : Divides source.text.toList pieces last) (hpiece : pieces[k]? = some p) :
    source.items[k]? = some ⟨lineBehind (frontOf pieces k p), .ok p.token⟩ := by
  obtain ⟨end_, hitems, -⟩ := divides.exists_items .first
  have hlt : k < (itemsFrom .first pieces).length := by
    rw [length_itemsFrom]
    exact (List.getElem?_eq_some_iff.mp hpiece).1
  have hitem := getElem?_itemsFrom pieces [] k
  rw [hpiece] at hitem
  rw [Source.items, Cursor.start, hitems, List.getElem?_append_left hlt]
  exact hitem

theorem Source.getElem?_items_length {pieces : List Piece} {last : Except LexicalError Token}
    (divides : Divides source.text.toList pieces last) :
    ∃ end_, source.items[pieces.length]? = some ⟨end_, last⟩ ∧
      (last = .ok .endOfInput → end_ = lineBehind source.text.toList) := by
  obtain ⟨end_, hitems, hend⟩ := divides.exists_items .first
  refine ⟨end_, ?_, fun hlast => ?_⟩
  · rw [Source.items, Cursor.start, hitems, ← length_itemsFrom .first pieces,
      List.getElem?_concat_length]
  · rw [hend hlast]
    exact (lineBehind_append [] source.text.toList).symm

/-- A text has one item for each piece, and one behind them. -/
theorem Source.length_items_of_divides {pieces : List Piece} {last : Except LexicalError Token}
    (divides : Divides source.text.toList pieces last) :
    source.items.length = pieces.length + 1 := by
  obtain ⟨end_, hitems, -⟩ := divides.exists_items .first
  rw [Source.items, Cursor.start, hitems, List.length_append, length_itemsFrom]
  rfl

theorem Source.le_length_of_item {pieces : List Piece} {last : Except LexicalError Token}
    (divides : Divides source.text.toList pieces last) (hi : source.items[k]? = some i) :
    k ≤ pieces.length := by
  have hlt := (List.getElem?_eq_some_iff.mp hi).1
  rw [Source.length_items_of_divides divides] at hlt
  exact Nat.le_of_lt_succ hlt

/-- **An item stands on the line of what it begins behind.** -/
theorem Source.Begins.line_eq (h : source.Begins k front) (hi : source.items[k]? = some i) :
    i.line = lineBehind front := by
  cases h with
  | token divides piece_eq =>
    rw [← Option.some.inj ((Source.getElem?_items divides piece_eq).symm.trans hi)]
  | endOfInput divides =>
    obtain ⟨end_, hlast, hend⟩ := Source.getElem?_items_length divides
    rw [← Option.some.inj (hlast.symm.trans hi), hend rfl]

/-- **Every token begins somewhere in the text**, and the end of the input behind all of it. -/
theorem Source.exists_begins (h : source.items[k]? = some ⟨line, .ok t⟩) :
    ∃ front, source.Begins k front ∧ line = lineBehind front := by
  obtain ⟨pieces, last, divides⟩ := exists_division source.text.toList
  obtain ⟨end_, hlast, -⟩ := Source.getElem?_items_length divides
  have hbegins : ∃ front, source.Begins k front := by
    rcases Nat.lt_or_eq_of_le (Source.le_length_of_item divides h) with hlt | rfl
    · exact ⟨_, .token divides (List.getElem?_eq_getElem hlt)⟩
    · obtain ⟨-, rfl⟩ := Located.mk.inj (Option.some.inj (hlast.symm.trans h))
      obtain rfl := divides.eq_endOfInput
      exact ⟨_, .endOfInput divides⟩
  obtain ⟨front, hfront⟩ := hbegins
  exact ⟨front, hfront, hfront.line_eq h⟩

theorem Lexeme.eq_of_name {lexeme rest : List Char} (h : Lexeme lexeme rest (.ok (.name x))) :
    lexeme = x.toList := by
  cases h
  rfl

/-- A name stands where it begins. -/
theorem Source.Begins.name_isPrefix (h : source.Begins k front)
    (hname : source.items[k]? = some ⟨line, .ok (.name x)⟩) :
    front ++ x.toList <+: source.text.toList := by
  cases h with
  | @token pieces last k p divides piece_eq =>
    have hitem := (Source.getElem?_items divides piece_eq).symm.trans hname
    obtain ⟨gap, lexeme, token⟩ := p
    obtain rfl : token = .name x := Except.ok.inj (Located.mk.inj (Option.some.inj hitem)).2
    obtain ⟨rest, htext, -, hlexeme⟩ := divides.exists_rest piece_eq
    refine ⟨rest, ?_⟩
    rw [← hlexeme.eq_of_name, htext, List.append_assoc]
  | endOfInput divides =>
    obtain ⟨end_, hlast, -⟩ := Source.getElem?_items_length divides
    cases hlast.symm.trans hname

end PlZero
