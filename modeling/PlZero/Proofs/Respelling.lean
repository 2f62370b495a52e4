import PlZero.Proofs.Positions

/-!
# Reading lexemes again

Each token has a spelling of its own (`Token.lexeme`), which need not be the one that it was read
from: a number has lost its separators. But a token that was read from some text is read from its
own spelling as well (`Token.IsRead.respelled`), whatever stands behind, if that is no quote. So the
spelling tells the token (`Token.IsRead.eq_of_lexeme`).

Between the tokens of a text may stand any gaps. If the spellings of the tokens are joined with gaps
that are not empty, nothing is read over the end of a spelling, and the new text consists of the
same tokens (`reads_joined_lexemes`).
-/

namespace PlZero

variable {rest : List Char} {t u : Token} {tokens : List Token} {source : Source}

/-! ### The spelling of a token -/

/-- The token is read from some text. -/
def Token.IsRead (t : Token) : Prop := ∃ lexeme rest, Lexeme lexeme rest (.ok t)

/-- The digits of a number begin as the number does. -/
theorem digitsOf_cons {c : Char} (hc : c.isDigit) (cs : List Char) :
    digitsOf (c :: cs) = c :: digitsOf cs := by
  have hne : c ≠ '_' := by
    rintro rfl
    exact absurd hc (by decide)
  simp [digitsOf, hne]

theorem digitsOf_digitsOf (cs : List Char) : digitsOf (digitsOf cs) = digitsOf cs := by
  simp [digitsOf]

/-- **A token is read from its own spelling**, too. -/
theorem Token.IsRead.respelled (h : t.IsRead) (hquote : rest.head? ≠ some '\'') :
    Lexeme t.lexeme.toList rest (.ok t) := by
  obtain ⟨lexeme, behind, h⟩ := h
  cases h with
  | keyword k => exact .keyword k rest
  | name _ hword hname => exact .name rest hword hname
  | @number c cs _ hc hcs hvalue =>
    -- The separators are left out of the spelling, and leaving them out again changes nothing.
    have hdigits : ∀ d ∈ digitsOf cs, isNumberPart d := fun d hd =>
      hcs d (List.mem_filter.mp hd).1
    have hagain : digitsOf (c :: digitsOf cs) = digitsOf (c :: cs) := by
      rw [← digitsOf_cons hc, digitsOf_digitsOf]
    have hnumber := Lexeme.number rest hc hdigits (hagain ▸ hvalue)
    rw [hagain] at hnumber
    have htoList : (String.ofList (digitsOf (c :: cs))).toList = c :: digitsOf cs := by
      rw [String.toList_ofList, digitsOf_cons hc]
    rw [Token.lexeme, htoList]
    exact hnumber
  | text hcontent hfeed _ =>
    rw [Token.lexeme, String.toList_ofList, String.toList_ofList]
    exact .text hcontent hfeed hquote
  | mark m => exact .mark m rest

/-- No token reaches over the end of a line. -/
theorem Token.IsRead.unbroken_lexeme (h : t.IsRead) : Unbroken t.lexeme := by
  have hquote : ([] : List Char).head? ≠ some '\'' := nofun
  exact (h.respelled hquote).newline_not_mem

/-! ### What ends a lexeme -/

/-- The rest of a text that ends every lexeme in front of it: there is none, or it begins with a
blank or a comment. -/
def Separates (rest : List Char) : Prop := ∀ c ∈ rest.head?, isBlank c ∨ c = '{'

theorem Separates.ne_quote (h : Separates rest) : rest.head? ≠ some '\'' := fun hquote =>
  absurd (h _ hquote) (by decide)

theorem isWordPart_of_isNumberPart {d : Char} (h : isNumberPart d) : isWordPart d := by
  simp only [isNumberPart, isWordPart, Char.isAlphanum, Bool.or_eq_true] at h ⊢
  exact h.imp_left .inr

/-- Lexemes go on with characters of words only. -/
theorem isWordPart_of_goesOn {c d : Char} (h : goesOn c d) : isWordPart d := by
  unfold goesOn at h
  split at h
  · exact h
  · exact isWordPart_of_isNumberPart (Bool.and_eq_true_iff.mp h).2

theorem Separates.goesOn_eq_false (h : Separates rest) (c : Char) :
    ∀ d ∈ rest.head?, goesOn c d = false := by
  intro d hd
  refine Bool.eq_false_iff.mpr fun hgoesOn => ?_
  obtain ⟨-, -, -, hopen, hblank⟩ := ne_of_isWordPart (isWordPart_of_goesOn hgoesOn)
  rcases h d hd with hd | hd
  · exact absurd hd (by simp [hblank])
  · exact hopen hd

/-- In front of what separates, a token is read from its own spelling. -/
theorem Token.IsRead.readToken (h : t.IsRead) (hrest : Separates rest) :
    ∃ c cs, t.lexeme.toList ++ rest = c :: cs ∧ c ≠ '{' ∧ isBlank c = false ∧
      PlZero.readToken c cs = (.ok t, rest) := by
  have hlexeme := h.respelled hrest.ne_quote
  obtain ⟨c, cs, hcs, hopen, hblank⟩ := hlexeme.head
  refine ⟨c, cs ++ rest, by rw [hcs, List.cons_append], hopen, hblank, ?_⟩
  exact readToken_of_lexeme hlexeme (hrest.goesOn_eq_false c) (by rw [hcs]; rfl)

/-- **The spelling tells the token.** -/
theorem Token.IsRead.eq_of_lexeme (ht : t.IsRead) (hu : u.IsRead) (h : t.lexeme = u.lexeme) :
    t = u := by
  have hnil : Separates [] := nofun
  obtain ⟨c, cs, hcs, -, -, hread⟩ := ht.readToken hnil
  obtain ⟨d, ds, hds, -, -, hread'⟩ := hu.readToken hnil
  obtain ⟨rfl, rfl⟩ := List.cons.inj (hcs.symm.trans (h ▸ hds))
  exact Except.ok.inj (Prod.mk.inj (hread.symm.trans hread')).1

/-! ### Texts made of spellings -/

theorem Token.IsRead.ne_endOfInput (h : t.IsRead) : t ≠ .endOfInput := by
  obtain ⟨lexeme, behind, h⟩ := h
  cases h <;> nofun

/-- The tokens in front of the last item of a text are read from it. -/
theorem isRead_of_values {last : Except LexicalError Token}
    (h : source.items.map Located.value = tokens.map .ok ++ [last]) : ∀ t ∈ tokens, t.IsRead := by
  obtain ⟨pieces, last', divides⟩ := exists_division source.text.toList
  have hvalues := (divides.values .first).symm.trans h
  obtain rfl : pieces.map Piece.token = tokens :=
    tokens_of_map_ok (by simpa [Function.comp_def] using List.append_inj_left' hvalues rfl)
  intro t ht
  obtain ⟨p, hp, rfl⟩ := List.mem_map.mp ht
  obtain ⟨k, hk⟩ := List.mem_iff_getElem?.mp hp
  obtain ⟨rest, -, htoken⟩ := divides.exists_rest hk
  exact ⟨p.lexeme, rest, htoken.2⟩

/-- A token of a text is read from it, or it is the end of the input. -/
theorem Source.isRead_of_mem {line : Line} (h : ⟨line, .ok t⟩ ∈ source.items) :
    t = .endOfInput ∨ t.IsRead := by
  obtain ⟨read, last, hitems, hlast, -⟩ := Cursor.items_eq_append (.start source.text)
  have hvalues : source.items.map Located.value =
      (read.map Located.value).map .ok ++ [last.value] := by
    simp [Source.items, hitems, Function.comp_def]
  rw [Source.items, hitems] at h
  rcases List.mem_append.mp h with h | h
  · obtain ⟨u, hu, heq⟩ := List.mem_map.mp h
    obtain rfl : u.value = t := Except.ok.inj (Located.mk.inj heq).2
    exact .inr (isRead_of_values hvalues _ (List.mem_map_of_mem hu))
  · by_cases hend : t = .endOfInput
    · exact .inl hend
    · rw [← List.mem_singleton.mp h, Cursor.isLast_of_ne hend] at hlast
      cases hlast

theorem IsGap.separates {gap : List Char} (h : IsGap gap) (hne : gap ≠ []) (cs : List Char) :
    Separates (gap ++ cs) := by
  cases h with
  | nil => exact absurd rfl hne
  | blank hc => exact fun d hd => .inl (Option.some.inj hd ▸ hc)
  | comment => exact fun d hd => .inr (Option.some.inj hd).symm

/-- The spellings of the tokens, each with the gap behind it. -/
def joinLexemes (tokens : List Token) (gaps : List (List Char)) : List Char :=
  (tokens.zip gaps).flatMap fun p => p.1.lexeme.toList ++ p.2

/-- What follows a spelling ends it: a gap that is not empty, or nothing. -/
theorem separates_joinLexemes {gap : List Char} {gaps : List (List Char)} (hgap : IsGap gap)
    (hlength : gaps.length = tokens.length) (hapart : ∀ g ∈ (gap :: gaps).dropLast, g ≠ []) :
    Separates (gap ++ joinLexemes tokens gaps) := by
  by_cases hne : gap = []
  · cases gaps with
    | nil =>
      obtain rfl := List.eq_nil_of_length_eq_zero hlength.symm
      rw [hne]
      exact nofun
    | cons g gaps => exact absurd hne (hapart gap (by simp))
  · exact hgap.separates hne _

/-- From a gap on that has spellings behind it, their tokens are read, one after the other. -/
theorem values_joinLexemes (hread : ∀ t ∈ tokens, t.IsRead) {front : List Char}
    {gaps : List (List Char)} (hlength : gaps.length = tokens.length) (hfront : IsGap front)
    (hgaps : ∀ gap ∈ gaps, IsGap gap) (hapart : ∀ gap ∈ gaps.dropLast, gap ≠ []) (line : Line) :
    (⟨front ++ joinLexemes tokens gaps, line⟩ : Cursor).items.map Located.value =
      tokens.map .ok ++ [.ok .endOfInput] := by
  -- Over the tokens: behind each of them, the gap that follows it takes the place of `front`.
  induction tokens generalizing front gaps line with
  | nil =>
    obtain rfl := List.eq_nil_of_length_eq_zero hlength
    rw [joinLexemes, List.zip_nil_left, List.flatMap_nil, List.append_nil]
    exact (Divides.done hfront).values line
  | cons t tokens ih =>
    obtain ⟨gap, gaps, rfl⟩ := List.exists_cons_of_length_eq_add_one hlength
    obtain ⟨ht, hread⟩ := List.forall_mem_cons.mp hread
    obtain ⟨hgap, hgaps⟩ := List.forall_mem_cons.mp hgaps
    have hlength := Nat.succ.inj hlength
    have hbehind : ∀ g ∈ gaps.dropLast, g ≠ [] := fun g hg => hapart g (by
      cases gaps with
      | nil => cases hg
      | cons g' gaps => exact List.mem_cons_of_mem gap hg)
    have htext : joinLexemes (t :: tokens) (gap :: gaps) =
        t.lexeme.toList ++ (gap ++ joinLexemes tokens gaps) := by
      simp [joinLexemes]
    obtain ⟨c, cs, hcs, hopen, hblank, htoken⟩ :=
      ht.readToken (separates_joinLexemes hgap hlength hapart)
    have hlast (line : Line) : Cursor.isLast ⟨line, .ok t⟩ = false :=
      Cursor.isLast_of_ne ht.ne_endOfInput
    rw [Cursor.items_eq, Cursor.next_of_isGap hfront, htext, hcs,
      Cursor.next_cons cs _ hopen hblank, htoken]
    simp [hlast, ih hread hlength hgap hgaps hbehind]

/-- **Reading undoes spelling**: if a text consists of some tokens, so does every text that their
spellings make up, with gaps between them that are not empty and any gaps at both ends. The tokens
are the same, with the digits of every number and the content of every quoted text. -/
theorem reads_joined_lexemes (h : source.Reads tokens) {front : List Char}
    {gaps : List (List Char)} (hlength : gaps.length = tokens.length) (hfront : IsGap front)
    (hgaps : ∀ gap ∈ gaps, IsGap gap) (hapart : ∀ gap ∈ gaps.dropLast, gap ≠ []) (name : String) :
    Source.Reads ⟨name, String.ofList (front ++ joinLexemes tokens gaps)⟩ tokens := by
  rw [Source.reads_iff, Source.items, Cursor.start, String.toList_ofList]
  have hread := isRead_of_values (Source.reads_iff.mp h)
  exact values_joinLexemes hread hlength hfront hgaps hapart .first

/-- A comment holds the two words apart, the number has lost its separator, and the quoted text has
doubled its quote again. -/
theorem reads_joined_lexemes_comment :
    Source.Reads ⟨"", "write\x7b;\x7dbegin\n1000 'it''s'"⟩
      [.name "write", .keyword .begin_, .number 1000 "1000", .text "it's"] := by
  have hreads : Source.Reads ⟨"", "write begin 1_000'it''s'"⟩
      [.name "write", .keyword .begin_, .number 1000 "1000", .text "it's"] :=
    Source.reads_iff.mpr (by decide +kernel)
  have hblank {c : Char} (hc : isBlank c) : IsGap [c] := .blank hc .nil
  have hcomment : IsGap ['{', ';', '}'] := @IsGap.comment [';'] [] (by decide) .nil
  have hgaps : ∀ gap ∈ [['{', ';', '}'], ['\n'], [' '], []], IsGap gap := by
    simpa using ⟨hcomment, hblank (by decide), hblank (by decide), IsGap.nil⟩
  exact reads_joined_lexemes hreads rfl .nil hgaps (by decide) ""

end PlZero
