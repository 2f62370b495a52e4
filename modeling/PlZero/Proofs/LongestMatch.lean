import Mathlib.Control.Monad.Basic
import PlZero.Proofs.Lexemes
import PlZero.Proofs.Unbroken

/-!
# Reading by the longest match

A text divides into pieces, each a gap as long as possible and behind it the token there
(`Divides`), up to the end of the input or to a place where no token is. The items of the text are
the tokens of its pieces and what ends them (`Divides.values`); since every text divides
(`exists_division`), this says what the lexer gives on any text.
-/

namespace PlZero

/-! ### Gaps -/

/-- A row of blanks and comments. A comment ends with the first closing brace. -/
inductive IsGap : List Char → Prop
  | nil : IsGap []
  | blank {c : Char} {gap : List Char} (hc : isBlank c) (hgap : IsGap gap) : IsGap (c :: gap)
  | comment {body gap : List Char} (hbody : '}' ∉ body) (hgap : IsGap gap) :
      IsGap ('{' :: body ++ '}' :: gap)

theorem IsGap.append {gap gap' : List Char} (h : IsGap gap) (h' : IsGap gap') :
    IsGap (gap ++ gap') := by
  induction h with
  | nil => exact h'
  | blank hc _ ih => exact .blank hc ih
  | comment hbody _ ih => simpa using IsGap.comment hbody ih

/-- The gap `gap` in front of `rest` is all there is to skip. -/
def IsLongestGap (gap rest : List Char) : Prop := Longest (fun gap _ => IsGap gap) gap rest

/-- Behind a longest gap stands no blank, and a comment only if it is never closed. -/
theorem IsLongestGap.head {gap : List Char} {c : Char} {cs : List Char}
    (h : IsLongestGap gap (c :: cs)) : isBlank c = false ∧ (c = '{' → '}' ∉ cs) := by
  refine ⟨Bool.eq_false_iff.mpr fun hblank => ?_, ?_⟩
  · exact h.not_concat (h.1.append (.blank hblank .nil))
  · rintro rfl hclosed
    obtain ⟨body, rest, rfl, hbody⟩ := List.eq_append_cons_of_mem hclosed
    have hle := h.2 (gap ++ ('{' :: body ++ ['}'])) rest (by simp)
      (h.1.append (.comment hbody .nil))
    exact absurd hle (by simp)

/-! ### Skipping gaps -/

theorem skipGap_comment {body : List Char} (hbody : '}' ∉ body) (line : Line) (cs : List Char) :
    skipGap true line (body ++ '}' :: cs) = skipGap false (body.foldl Line.after line) cs := by
  induction body generalizing line with
  | nil => simp [skipGap, Line.after]
  | cons c body ih =>
    obtain ⟨hc, hbody⟩ : c ≠ '}' ∧ '}' ∉ body := by simpa [eq_comm] using hbody
    simp [skipGap, hc, ih hbody]

theorem skipGap_unclosed {body : List Char} (hbody : '}' ∉ body) (line : Line) :
    skipGap true line body = ⟨true, body.foldl Line.after line, []⟩ := by
  induction body generalizing line with
  | nil => rfl
  | cons c body ih =>
    obtain ⟨hc, hbody⟩ : c ≠ '}' ∧ '}' ∉ body := by simpa [eq_comm] using hbody
    simp [skipGap, hc, ih hbody]

/-- A gap is skipped, and its line feeds are counted. -/
theorem skipGap_of_isGap {gap : List Char} (h : IsGap gap) (line : Line) (cs : List Char) :
    skipGap false line (gap ++ cs) = skipGap false (gap.foldl Line.after line) cs := by
  induction h generalizing line with
  | nil => rfl
  | @blank c _ hc _ ih =>
    have hopen : c ≠ '{' := by
      rintro rfl
      exact absurd hc (by decide)
    simp [skipGap, hopen, hc, ih]
  | @comment body gap hbody _ ih =>
    have hfeed : ∀ line : Line, line.after '{' = line ∧ line.after '}' = line := by
      simp [Line.after]
    simp [skipGap, skipGap_comment hbody, ih, hfeed]

namespace Cursor

/-- Reading on from a gap is reading on from its end. -/
theorem next_of_isGap {gap : List Char} (h : IsGap gap) (line : Line) (cs : List Char) :
    (⟨gap ++ cs, line⟩ : Cursor).next = (⟨cs, gap.foldl Line.after line⟩ : Cursor).next := by
  rw [next, next, skipGap_of_isGap h]

theorem value_next_unclosed {body : List Char} (hbody : '}' ∉ body) (line : Line) :
    (⟨'{' :: body, line⟩ : Cursor).next.1.value = .error .unclosedComment := by
  simp [next, skipGap, skipGap_unclosed hbody, afterGap]

/-- What neither begins with a blank nor with a comment is read as a token. -/
theorem next_cons {c : Char} (cs : List Char) (line : Line) (hopen : c ≠ '{')
    (hblank : isBlank c = false) :
    (⟨c :: cs, line⟩ : Cursor).next = (⟨line, (readToken c cs).1⟩, ⟨(readToken c cs).2, line⟩) := by
  simp [next, skipGap, hopen, hblank, afterGap]

end Cursor

/-! ### Dividing a text -/

/-- A token of a text: the gap in front of it, the text it is read from, and what it is. -/
structure Piece where
  gap : List Char
  lexeme : List Char
  token : Token

/-- The text of a piece. -/
def Piece.chars (p : Piece) : List Char := p.gap ++ p.lexeme

/-- The text divides into these pieces and then ends, or then has no token. Every gap and every
lexeme is as long as possible. -/
inductive Divides : List Char → List Piece → Except LexicalError Token → Prop
  | done {gap : List Char} (hgap : IsGap gap) : Divides gap [] (.ok .endOfInput)
  | stop {gap rest : List Char} {e : LexicalError} (hgap : IsLongestGap gap rest)
      (hrest : rest ≠ [])
      (hnone : ∀ lexeme behind t, lexeme ++ behind = rest → ¬ TokenAt lexeme behind t)
      (hmalformed : Malformed rest e) : Divides (gap ++ rest) [] (.error e)
  | token {gap lexeme rest : List Char} {t : Token} {pieces : List Piece}
      {last : Except LexicalError Token} (hgap : IsLongestGap gap (lexeme ++ rest))
      (htoken : TokenAt lexeme rest t) (hrest : Divides rest pieces last) :
      Divides (gap ++ (lexeme ++ rest)) (⟨gap, lexeme, t⟩ :: pieces) last

/-- Every text divides. -/
theorem exists_division (cs : List Char) : ∃ pieces last, Divides cs pieces last := by
  obtain ⟨gap, rest, htext, hgap⟩ : ∃ gap rest, gap ++ rest = [] ++ cs ∧ IsLongestGap gap rest :=
    exists_longest (p := fun gap _ => IsGap gap) .nil
  rw [List.nil_append] at htext
  by_cases htoken : ∃ lexeme behind t, lexeme ++ behind = rest ∧ TokenAt lexeme behind t
  · obtain ⟨lexeme, behind, t, hrest, htoken⟩ := htoken
    obtain ⟨pieces, last, hbehind⟩ := exists_division behind
    subst hrest htext
    exact ⟨_, _, .token hgap htoken hbehind⟩
  · subst htext
    cases rest with
    | nil =>
      rw [List.append_nil]
      exact ⟨_, _, .done hgap.1⟩
    | cons c ds =>
      obtain ⟨hblank, hcomment⟩ := hgap.head
      have hnone : ∀ lexeme behind t, lexeme ++ behind = c :: ds → ¬ TokenAt lexeme behind t :=
        fun lexeme behind t heq h => htoken ⟨lexeme, behind, t, heq, h⟩
      obtain ⟨e, he⟩ := malformed_of_no_token hblank hcomment hnone
      exact ⟨_, _, .stop hgap nofun hnone he⟩
termination_by cs.length
decreasing_by
  -- a lexeme takes at least one character
  obtain ⟨c, ds, rfl, -⟩ := htoken.2.head
  have hlength := congrArg List.length htext
  simp only [← hrest, List.length_append, List.length_cons, List.nil_append] at hlength
  omega

/-- The pieces are what the text begins with. -/
theorem Divides.chars_isPrefix {cs : List Char} {pieces : List Piece}
    {last : Except LexicalError Token} (h : Divides cs pieces last) :
    pieces.flatMap Piece.chars <+: cs := by
  induction h with
  | done => exact List.nil_prefix
  | stop => exact List.nil_prefix
  | token _ _ _ ih =>
    simpa [Piece.chars] using ih

/-! ### The items of a divided text -/

theorem TokenAt.ne_endOfInput {lexeme rest : List Char} {t : Token} (h : TokenAt lexeme rest t) :
    t ≠ .endOfInput := by
  obtain ⟨-, hlexeme⟩ := h
  cases hlexeme <;> nofun

theorem Cursor.isLast_of_ne {line : Line} {t : Token} (h : t ≠ .endOfInput) :
    isLast ⟨line, .ok t⟩ = false := by
  cases t <;> first | rfl | exact absurd rfl h

/-- What is read where a text has no token. -/
theorem value_next_of_malformed {rest : List Char} {e : LexicalError} (hrest : rest ≠ [])
    {gap : List Char} (hgap : IsLongestGap gap rest) (h : Malformed rest e) (line : Line) :
    (⟨rest, line⟩ : Cursor).next.1.value = .error e := by
  obtain ⟨c, cs, rfl⟩ := List.exists_cons_of_ne_nil hrest
  obtain ⟨hblank, hcomment⟩ := hgap.head
  by_cases hopen : c = '{'
  · subst hopen
    rw [Cursor.value_next_unclosed (hcomment rfl), h.eq_unclosedComment]
  · rw [Cursor.next_cons cs line hopen hblank]
    exact readToken_of_malformed hopen h

/-- No lexeme reaches over the end of a line. -/
theorem Lexeme.newline_not_mem {lexeme rest : List Char} {value : Except LexicalError Token}
    (h : Lexeme lexeme rest value) : '\n' ∉ lexeme := by
  have hdigits {c : Char} {cs : List Char} (hc : c.isDigit) (hcs : ∀ d ∈ cs, isNumberPart d) :
      '\n' ∉ c :: cs := by
    intro hmem
    rcases List.mem_cons.mp hmem with rfl | hmem
    · exact absurd hc (by decide)
    · exact absurd (hcs _ hmem) (by decide)
  cases h with
  | keyword k => exact k.unbroken_spelling
  | name _ hword => exact hword.unbroken
  | number _ hc hcs | tooLarge _ hc hcs => exact hdigits hc hcs
  | text _ hfeed => simp [newline_mem_doubleQuotes, hfeed]
  | mark m => exact m.unbroken_spelling

theorem foldl_after_of_not_mem {cs : List Char} (h : '\n' ∉ cs) (line : Line) :
    cs.foldl Line.after line = line := by
  induction cs with
  | nil => rfl
  | cons c cs ih =>
    obtain ⟨hc, hcs⟩ : c ≠ '\n' ∧ '\n' ∉ cs := by simpa [eq_comm] using h
    rw [List.foldl_cons, Line.after, if_neg hc, ih hcs]

/-- What is read behind a gap where a text has a token. -/
theorem next_of_tokenAt {gap lexeme rest : List Char} {t : Token} (hgap : IsGap gap)
    (htoken : TokenAt lexeme rest t) (line : Line) :
    (⟨gap ++ (lexeme ++ rest), line⟩ : Cursor).next =
      (⟨gap.foldl Line.after line, .ok t⟩, ⟨rest, gap.foldl Line.after line⟩) := by
  obtain ⟨c, ds, rfl, hopen, hblank⟩ := htoken.2.head
  have hread : readToken c (ds ++ rest) = (.ok t, rest) :=
    readToken_of_longest htoken.1 htoken.2 rfl
  rw [Cursor.next_of_isGap hgap, List.cons_append, Cursor.next_cons _ _ hopen hblank, hread]

/-- The items of a text that has a token behind a gap: this, and those of the text behind it. -/
theorem items_of_tokenAt {gap lexeme rest : List Char} {t : Token} (hgap : IsGap gap)
    (htoken : TokenAt lexeme rest t) (line : Line) :
    (⟨gap ++ (lexeme ++ rest), line⟩ : Cursor).items = ⟨gap.foldl Line.after line, .ok t⟩ ::
      (⟨rest, (gap ++ lexeme).foldl Line.after line⟩ : Cursor).items := by
  have hlast : Cursor.isLast ⟨gap.foldl Line.after line, .ok t⟩ = false :=
    Cursor.isLast_of_ne htoken.ne_endOfInput
  rw [Cursor.items_eq, next_of_tokenAt hgap htoken, hlast, List.foldl_append,
    foldl_after_of_not_mem htoken.2.newline_not_mem]
  rfl

/-- The items of pieces, the first of which begins on this line. -/
def itemsFrom (line : Line) : List Piece → List Item
  | [] => []
  | p :: ps =>
    ⟨p.gap.foldl Line.after line, .ok p.token⟩ :: itemsFrom (p.chars.foldl Line.after line) ps

/-- The items of a divided text are those of its pieces, and last what ends it. -/
theorem Divides.exists_items {cs : List Char} {pieces : List Piece}
    {last : Except LexicalError Token} (h : Divides cs pieces last) (line : Line) :
    ∃ end_, (⟨cs, line⟩ : Cursor).items = itemsFrom line pieces ++ [⟨end_, last⟩] ∧
      (last = .ok .endOfInput → end_ = cs.foldl Line.after line) := by
  induction h generalizing line with
  | @done gap hgap =>
    have hnext := Cursor.next_of_isGap hgap line []
    rw [List.append_nil] at hnext
    rw [Cursor.items_eq, hnext]
    exact ⟨_, rfl, fun _ => rfl⟩
  | @stop gap rest e hgap hrest hnone hmalformed =>
    have hvalue := value_next_of_malformed hrest hgap hmalformed (gap.foldl Line.after line)
    have hlast : Cursor.isLast (⟨rest, gap.foldl Line.after line⟩ : Cursor).next.1 = true := by
      rw [Cursor.isLast, hvalue]
    rw [Cursor.items_eq, Cursor.next_of_isGap hgap.1, if_pos hlast]
    refine ⟨(⟨rest, gap.foldl Line.after line⟩ : Cursor).next.1.line, ?_, fun heq => by cases heq⟩
    rw [itemsFrom, List.nil_append, ← hvalue]
  | @token gap lexeme rest t pieces last hgap htoken hrest ih =>
    obtain ⟨end_, hitems, hend⟩ := ih ((gap ++ lexeme).foldl Line.after line)
    refine ⟨end_, ?_, fun hlast => ?_⟩
    · rw [items_of_tokenAt hgap.1 htoken, hitems]
      rfl
    · rw [hend hlast, ← List.append_assoc, ← List.foldl_append]

/-- The items of a divided text are its tokens, and last what ends it. -/
theorem Divides.values {cs : List Char} {pieces : List Piece} {last : Except LexicalError Token}
    (h : Divides cs pieces last) (line : Line) :
    (⟨cs, line⟩ : Cursor).items.map Located.value = pieces.map (.ok ·.token) ++ [last] := by
  have hpieces (pieces : List Piece) (line : Line) :
      (itemsFrom line pieces).map Located.value = pieces.map (.ok ·.token) := by
    induction pieces generalizing line with
    | nil => rfl
    | cons p ps ih => simp [itemsFrom, ih]
  obtain ⟨end_, hitems, -⟩ := h.exists_items line
  rw [hitems, List.map_append, hpieces]
  rfl

/-- On every text the lexer gives, one by one, what the text divides into: the tokens that are the
longest match behind their gap, each once and in the order of the text, and then the end of the
input or the reason why there is no token. The pieces are what the text begins with. -/
theorem gives_longest_match (text : String) :
    ∃ items, (Lexer.start text).Gives items ∧
      (∃ pieces last, Divides text.toList pieces last) ∧
        ∀ pieces last, Divides text.toList pieces last →
          pieces.flatMap Piece.chars <+: text.toList ∧
            items.map Located.value = pieces.map (.ok ·.token) ++ [last] :=
  ⟨(Cursor.start text).items, Lexer.gives_iff.mpr rfl, exists_division _, fun _ _ h =>
    ⟨h.chars_isPrefix, h.values .first⟩⟩

/-- A keyword, a text with a quote in it, and behind a comment a number with a separator; the colon
at the end begins no token. -/
theorem gives_longest_match_colon :
    ∃ pieces, Divides "while'it''s'\x7bodd\x7d1_0:".toList pieces (.error (.brokenAssignment "")) ∧
      pieces.map Piece.token = [.keyword .while_, .text "it's", .number 10 "10"] := by
  obtain ⟨items, hgives, ⟨pieces, last, hdivides⟩, hall⟩ :=
    gives_longest_match "while'it''s'\x7bodd\x7d1_0:"
  have hitems : items.map Located.value =
      [Token.keyword .while_, .text "it's", .number 10 "10"].map .ok ++
        [.error (.brokenAssignment "")] := by
    rw [Lexer.gives_iff.mp hgives]
    decide +kernel
  obtain ⟨-, hvalues⟩ := hall pieces last hdivides
  have hsame : pieces.map (.ok ·.token) ++ [last] =
      [Token.keyword .while_, .text "it's", .number 10 "10"].map .ok ++
        [.error (.brokenAssignment "")] := hvalues.symm.trans hitems
  obtain ⟨htokens, hlast⟩ := List.append_inj' hsame rfl
  refine ⟨pieces, List.head_eq_of_cons_eq hlast ▸ hdivides, tokens_of_map_ok ?_⟩
  rw [List.map_map]
  exact htokens

end PlZero
