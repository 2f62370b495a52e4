import PlZero.Proofs.Items

/-!
# Lexemes

What may stand between two gaps of a program text, told without reading it from left to right: a
`Lexeme` is a word, a number, a quoted text or a mark, and the token of a text is the longest of the
lexemes at its beginning (`TokenAt`). `Malformed` lists the texts that begin with no token, each
with the error it is reported as.

Reading agrees with both. A lexeme that does not go on behind its end (`goesOn`) is what `readToken`
takes (`readToken_of_lexeme`), and so is a longest lexeme (`readToken_of_longest`). A malformed text
is refused with its error (`readToken_of_malformed`), and a text that neither begins with a blank or
a comment nor with a token is malformed (`malformed_of_no_token`).
-/

namespace PlZero

/-! ### Longest prefixes -/

/-- Of all ways to take something that fulfils `p` from the front of a text, `taken`, with `rest`
behind it, takes the most. -/
def Longest (p : List Char → List Char → Prop) (taken rest : List Char) : Prop :=
  p taken rest ∧ ∀ taken' rest', taken' ++ rest' = taken ++ rest → p taken' rest' →
    taken'.length ≤ taken.length

theorem exists_longest {p : List Char → List Char → Prop} {taken rest : List Char}
    (h : p taken rest) :
    ∃ taken' rest', taken' ++ rest' = taken ++ rest ∧ Longest p taken' rest' := by
  by_cases hmax : ∀ taken' rest', taken' ++ rest' = taken ++ rest → p taken' rest' →
      taken'.length ≤ taken.length
  · exact ⟨taken, rest, rfl, h, hmax⟩
  · simp only [Classical.not_forall, Nat.not_le] at hmax
    obtain ⟨taken', rest', heq, h', hlt⟩ := hmax
    have hlength := congrArg List.length heq
    obtain ⟨longest, behind, heq', hlongest⟩ := exists_longest h'
    exact ⟨longest, behind, heq'.trans heq, hlongest⟩
termination_by rest.length
decreasing_by
  simp only [List.length_append] at hlength
  omega

/-- What has been taken cannot be continued by one more character. -/
theorem Longest.not_concat {p : List Char → List Char → Prop} {taken rest : List Char} {c : Char}
    (h : Longest p taken (c :: rest)) : ¬ p (taken ++ [c]) rest := by
  intro hp
  have hle := h.2 (taken ++ [c]) rest (by simp) hp
  exact absurd hle (by simp)

/-! ### Lexemes -/

/-- The digits of a number as it stands in a program: the underscores only separate them. -/
def digitsOf (number : List Char) : List Char := number.filter (· ≠ '_')

/-- The value that a row of digits spells. -/
def valueOf (digits : List Char) : Nat := Nat.ofDigitChars 10 digits 0

/-- A piece of program text, the text behind it and what the piece is read as. Only a quoted text
looks at what is behind it: its closing quote must be the last one. -/
inductive Lexeme : List Char → List Char → Except LexicalError Token → Prop
  | keyword (k : Keyword) (rest : List Char) : Lexeme k.spelling.toList rest (.ok (.keyword k))
  | name {word : String} (rest : List Char) (hword : IsWord word)
      (hname : ∀ k : Keyword, k.spelling ≠ word) : Lexeme word.toList rest (.ok (.name word))
  | number {c : Char} {cs : List Char} (rest : List Char) (hc : c.isDigit)
      (hcs : ∀ d ∈ cs, isNumberPart d) (hvalue : valueOf (digitsOf (c :: cs)) ≤ maxNumber) :
      Lexeme (c :: cs) rest
        (.ok (.number (valueOf (digitsOf (c :: cs))) (String.ofList (digitsOf (c :: cs)))))
  | tooLarge {c : Char} {cs : List Char} (rest : List Char) (hc : c.isDigit)
      (hcs : ∀ d ∈ cs, isNumberPart d) (hvalue : maxNumber < valueOf (digitsOf (c :: cs))) :
      Lexeme (c :: cs) rest (.error (.numberTooLarge (String.ofList (digitsOf (c :: cs)))))
  | text {content rest : List Char} (hcontent : content ≠ []) (hfeed : '\n' ∉ content)
      (hquote : rest.head? ≠ some '\'') :
      Lexeme ('\'' :: Token.doubleQuotes content ++ ['\'']) rest
        (.ok (.text (String.ofList content)))
  | mark (m : Mark) (rest : List Char) : Lexeme m.spelling.toList rest (.ok (.mark m))

/-- Some lexeme, whatever it is read as. -/
def IsLexeme (lexeme rest : List Char) : Prop := ∃ value, Lexeme lexeme rest value

/-- The text `lexeme ++ rest` begins with the token `t`: no lexeme there is longer than `lexeme`,
and this one is read as `t`. -/
def TokenAt (lexeme rest : List Char) (t : Token) : Prop :=
  Longest IsLexeme lexeme rest ∧ Lexeme lexeme rest (.ok t)

/-- The text begins with no token, for the given reason. -/
inductive Malformed : List Char → LexicalError → Prop
  | unclosedComment {body : List Char} (hbody : '}' ∉ body) :
      Malformed ('{' :: body) .unclosedComment
  | unclosedText {content rest : List Char} (hfeed : '\n' ∉ content)
      (hrest : rest.head? = none ∨ rest.head? = some '\n') :
      Malformed ('\'' :: Token.doubleQuotes content ++ rest) .unclosedText
  | emptyText {rest : List Char} (hquote : rest.head? ≠ some '\'') :
      Malformed ('\'' :: '\'' :: rest) .emptyText
  | brokenAssignment {rest : List Char} (hequals : rest.head? ≠ some '=') :
      Malformed (':' :: rest) (.brokenAssignment (String.ofList (rest.take 1)))
  | numberTooLarge {lexeme rest : List Char} {e : LexicalError}
      (hlongest : Longest IsLexeme lexeme rest) (hlexeme : Lexeme lexeme rest (.error e)) :
      Malformed (lexeme ++ rest) e
  | unknownCharacter {c : Char} {rest : List Char} (hblank : isBlank c = false)
      (hword : isWordStart c = false) (hdigit : c.isDigit = false) (hcomment : c ≠ '{')
      (hquote : c ≠ '\'') (hmark : ∀ m : Mark, m.spelling.toList.head? ≠ some c) :
      Malformed (c :: rest) (.unknownCharacter c)

/-! ### Words -/

theorem Keyword.isWord_spelling (k : Keyword) : IsWord k.spelling := by
  cases k <;> exact ⟨_, _, rfl, by decide, List.all_eq_true.mp (by decide)⟩

theorem wordToken_spelling (k : Keyword) : wordToken k.spelling = .keyword k := by
  simp [wordToken, Keyword.ofSpelling?_spelling]

theorem wordToken_of_ne {word : String} (h : ∀ k : Keyword, k.spelling ≠ word) :
    wordToken word = .name word := by
  unfold wordToken
  split
  · next k hk => exact absurd (Keyword.spelling_of_ofSpelling? hk) (h k)
  · rfl

/-- Every word is a lexeme, either of a keyword or of a name. -/
theorem IsWord.isLexeme {word : String} (h : IsWord word) (rest : List Char) :
    IsLexeme word.toList rest := by
  by_cases hk : ∃ k : Keyword, k.spelling = word
  · obtain ⟨k, rfl⟩ := hk
    exact ⟨_, .keyword k rest⟩
  · exact ⟨_, .name rest h fun k hspelling => hk ⟨k, hspelling⟩⟩

theorem isWord_ofList {c : Char} {cs : List Char} (hc : isWordStart c)
    (hcs : ∀ d ∈ cs, isWordPart d) : IsWord (String.ofList (c :: cs)) :=
  ⟨c, cs, String.toList_ofList, hc, hcs⟩

/-! ### Numbers -/

/-- Every row of digits and separators is a lexeme, in range or not. -/
theorem isLexeme_number {c : Char} {cs : List Char} (hc : c.isDigit)
    (hcs : ∀ d ∈ cs, isNumberPart d) (rest : List Char) : IsLexeme (c :: cs) rest := by
  by_cases hvalue : valueOf (digitsOf (c :: cs)) ≤ maxNumber
  · exact ⟨_, .number rest hc hcs hvalue⟩
  · exact ⟨_, .tooLarge rest hc hcs (Nat.lt_of_not_le hvalue)⟩

/-- Dropping the separators keeps exactly the digits. -/
theorem digitsOf_eq {cs : List Char} (h : ∀ d ∈ cs, isNumberPart d) :
    digitsOf cs = cs.filter Char.isDigit := by
  refine List.filter_congr fun d hd => ?_
  have hpart := h d hd
  by_cases hd : d = '_'
  · subst hd
    decide
  · simpa [isNumberPart, hd] using hpart

/-- Every mark but `:=` is a single character. -/
theorem Mark.toList_spelling {m : Mark} {c : Char} (hm : m ≠ .becomes)
    (hc : m.spelling.toList.head? = some c) : m.spelling.toList = [c] := by
  cases m <;> first | exact absurd rfl hm | (cases hc; rfl)

/-! ### Reading by the first character -/

/-- A character of a word or a number begins nothing else. -/
theorem ne_of_isWordPart {c : Char} (h : isWordPart c) :
    Mark.ofChar? c = none ∧ c ≠ ':' ∧ c ≠ '\'' ∧ c ≠ '{' ∧ isBlank c = false := by
  have hne (d : Char) (hd : isWordPart d = false) : c ≠ d := by
    rintro rfl
    exact absurd (hd.symm.trans h) (by decide)
  refine ⟨?_, hne _ (by decide), hne _ (by decide), hne _ (by decide), ?_⟩
  · unfold Mark.ofChar?
    split <;> first | rfl | exact absurd h (by decide)
  · simp [isBlank, hne ' ' (by decide), hne '\t' (by decide), hne '\r' (by decide),
      hne '\n' (by decide)]

theorem isWordPart_of_isDigit {c : Char} (h : c.isDigit) : isWordPart c := by
  simp [isWordPart, Char.isAlphanum, h]

theorem readToken_word {c : Char} (cs : List Char) (h : isWordStart c) :
    readToken c cs =
      (.ok (wordToken (String.ofList (c :: cs.takeWhile isWordPart))),
        cs.dropWhile isWordPart) := by
  obtain ⟨hmark, hcolon, hquote, -⟩ := ne_of_isWordPart (isWordPart_of_isWordStart h)
  simp [readToken, hmark, hcolon, hquote, h]

theorem readToken_number {c : Char} (cs : List Char) (h : c.isDigit) :
    readToken c cs =
      (numberToken ((c :: cs.takeWhile isNumberPart).filter Char.isDigit),
        cs.dropWhile isNumberPart) := by
  obtain ⟨hmark, hcolon, hquote, -⟩ := ne_of_isWordPart (isWordPart_of_isDigit h)
  simp [readToken, hmark, hcolon, hquote, h, isWordStart_of_isDigit h]

theorem readToken_spelling {m : Mark} {c : Char} {cs rest : List Char}
    (h : m.spelling.toList ++ rest = c :: cs) : readToken c cs = (.ok (.mark m), rest) := by
  cases m <;>
    (obtain ⟨rfl, rfl⟩ := List.cons.inj h.symm
     rfl)

theorem readToken_unknown {c : Char} {cs : List Char} (hword : isWordStart c = false)
    (hdigit : c.isDigit = false) (hquote : c ≠ '\'')
    (hmark : ∀ m : Mark, m.spelling.toList.head? ≠ some c) :
    readToken c cs = (.error (.unknownCharacter c), c :: cs) := by
  have hcolon : c ≠ ':' := fun hc => hmark .becomes (by rw [hc]; rfl)
  have hnone : Mark.ofChar? c = none := Option.eq_none_iff_forall_ne_some.mpr fun m hm =>
    hmark m (by rw [Mark.toList_spelling_of_ofChar? hm]; rfl)
  simp [readToken, hnone, hcolon, hquote, hword, hdigit]

theorem readToken_colon {cs : List Char} (h : cs.head? ≠ some '=') :
    readToken ':' cs = (.error (.brokenAssignment (String.ofList (cs.take 1))), cs) := by
  cases cs with
  | nil => rfl
  | cons d cs =>
    have hd : d ≠ '=' := by simpa using h
    have hread : readToken ':' (d :: cs) = if d = '=' then (.ok (.mark .becomes), cs)
        else (.error (.brokenAssignment (String.singleton d)), d :: cs) := rfl
    rw [hread, if_neg hd, String.singleton_eq_ofList]
    rfl

/-! ### Reading a quoted text -/

theorem readToken_quote (cs : List Char) : readToken '\'' cs = readText [] cs := rfl

theorem readText_cons (content cs : List Char) {c : Char} (hquote : c ≠ '\'') (hfeed : c ≠ '\n') :
    readText content (c :: cs) = readText (c :: content) cs := by
  rw [readText.eq_def]
  simp [hquote, hfeed]

/-- A quote that is not doubled closes the text, which must not be empty. -/
theorem readText_quote (content : List Char) {rest : List Char}
    (hquote : rest.head? ≠ some '\'') :
    readText content ('\'' :: rest) =
      (if content = [] then .error .emptyText
        else .ok (.text (String.ofList content.reverse)), rest) := by
  rw [readText.eq_def]
  simp only [if_true]
  split
  · exact absurd rfl hquote
  · cases content <;> rfl

theorem readText_unclosed (content : List Char) {rest : List Char}
    (h : rest.head? = none ∨ rest.head? = some '\n') :
    readText content rest = (.error .unclosedText, rest) := by
  rcases h with h | h
  · rw [List.head?_eq_none_iff.mp h, readText]
  · obtain ⟨rest, rfl⟩ := List.head?_eq_some_iff.mp h
    rw [readText.eq_def]
    rfl

/-- The content of a quoted text is read as it was written. -/
theorem readText_doubleQuotes (done : List Char) {content : List Char} (rest : List Char)
    (hfeed : '\n' ∉ content) :
    readText done (Token.doubleQuotes content ++ rest) =
      readText (content.reverse ++ done) rest := by
  induction content generalizing done with
  | nil => rfl
  | cons c content ih =>
    obtain ⟨hc, hcontent⟩ : c ≠ '\n' ∧ '\n' ∉ content := by
      simpa [eq_comm] using hfeed
    by_cases hquote : c = '\''
    · subst hquote
      simp [Token.doubleQuotes, readText, ih _ hcontent]
    · simp [Token.doubleQuotes, hquote, readText_cons _ _ hquote hc, ih _ hcontent]

/-- Every text is the content of a quoted text up to the end, a line feed or a closing quote. -/
theorem exists_content (cs : List Char) :
    ∃ content rest, cs = Token.doubleQuotes content ++ rest ∧ '\n' ∉ content ∧
      ((rest.head? = none ∨ rest.head? = some '\n') ∨
        ∃ behind, rest = '\'' :: behind ∧ behind.head? ≠ some '\'') := by
  match cs with
  | [] => exact ⟨[], [], rfl, by simp, by simp⟩
  | c :: cs =>
    by_cases hfeed : c = '\n'
    · exact ⟨[], c :: cs, rfl, by simp, by simp [hfeed]⟩
    · by_cases hquote : c = '\''
      · subst hquote
        by_cases hclosing : cs.head? = some '\''
        · obtain ⟨rest, rfl⟩ := List.head?_eq_some_iff.mp hclosing
          obtain ⟨content, rest, rfl, hcontent, hend⟩ := exists_content rest
          exact ⟨'\'' :: content, rest, by simp [Token.doubleQuotes], by simpa using hcontent, hend⟩
        · exact ⟨[], '\'' :: cs, rfl, by simp, .inr ⟨cs, rfl, hclosing⟩⟩
      · obtain ⟨content, rest, rfl, hcontent, hend⟩ := exists_content cs
        exact ⟨c :: content, rest, by simp [Token.doubleQuotes, hquote],
          by simpa [eq_comm] using ⟨hfeed, hcontent⟩, hend⟩
termination_by cs.length

/-! ### Reading agrees with the lexemes -/

theorem takeWhile_dropWhile_append {p : Char → Bool} {cs rest : List Char} (hcs : ∀ d ∈ cs, p d)
    (hrest : ∀ d ∈ rest.head?, p d = false) :
    (cs ++ rest).takeWhile p = cs ∧ (cs ++ rest).dropWhile p = rest := by
  rw [List.takeWhile_append_of_pos hcs, List.dropWhile_append_of_pos hcs]
  cases rest with
  | nil => simp
  | cons d rest => simp [hrest d rfl]

/-- Behind a longest lexeme that any character of a class would continue stands none of them. -/
theorem Longest.head_of_concat {p : List Char → List Char → Prop} {q : Char → Bool}
    {taken rest : List Char} (h : Longest p taken rest)
    (hp : ∀ d rest, q d → p (taken ++ [d]) rest) : ∀ d ∈ rest.head?, q d = false := by
  intro d hd
  obtain ⟨rest, rfl⟩ := List.head?_eq_some_iff.mp hd
  exact Bool.eq_false_iff.mpr fun hq => h.not_concat (hp d rest hq)

/-- Whether a lexeme that begins with `c` could go on with `d`: a word with letters and digits, a
number with digits and separators. -/
def goesOn (c d : Char) : Bool :=
  if isWordStart c then isWordPart d else c.isDigit && isNumberPart d

theorem goesOn_of_isWordStart {c : Char} (h : isWordStart c) (d : Char) :
    goesOn c d = isWordPart d := by
  simp [goesOn, h]

theorem goesOn_of_isDigit {c : Char} (h : c.isDigit) (d : Char) : goesOn c d = isNumberPart d := by
  simp [goesOn, h, isWordStart_of_isDigit h]

theorem readToken_of_isWord {word : String} {rest : List Char} {c : Char} {cs : List Char}
    (hword : IsWord word) (hrest : ∀ d ∈ rest.head?, goesOn c d = false)
    (heq : word.toList ++ rest = c :: cs) : readToken c cs = (.ok (wordToken word), rest) := by
  obtain ⟨d, ds, htoList, hd, hds⟩ := hword
  rw [htoList, List.cons_append] at heq
  obtain ⟨rfl, rfl⟩ := List.cons.inj heq
  simp only [goesOn_of_isWordStart hd] at hrest
  obtain ⟨htake, hdrop⟩ := takeWhile_dropWhile_append hds hrest
  rw [readToken_word _ hd, htake, hdrop, ← htoList, String.ofList_toList]

theorem readToken_of_number {rest : List Char} {c : Char} {cs : List Char} (hc : c.isDigit)
    (hcs : ∀ d ∈ cs, isNumberPart d) (hrest : ∀ d ∈ rest.head?, goesOn c d = false) :
    readToken c (cs ++ rest) = (numberToken (digitsOf (c :: cs)), rest) := by
  simp only [goesOn_of_isDigit hc] at hrest
  have hall : ∀ d ∈ c :: cs, isNumberPart d := by
    simpa [isNumberPart, hc] using hcs
  obtain ⟨htake, hdrop⟩ := takeWhile_dropWhile_append hcs hrest
  rw [readToken_number _ hc, htake, hdrop, digitsOf_eq hall]

/-- A lexeme that does not go on is what is read. -/
theorem readToken_of_lexeme {lexeme rest : List Char} {value : Except LexicalError Token}
    {c : Char} {cs : List Char} (hlexeme : Lexeme lexeme rest value)
    (hrest : ∀ d ∈ rest.head?, goesOn c d = false) (heq : lexeme ++ rest = c :: cs) :
    readToken c cs = (value, rest) := by
  cases hlexeme with
  | keyword k =>
    rw [readToken_of_isWord k.isWord_spelling hrest heq, wordToken_spelling]
  | name _ hword hname =>
    rw [readToken_of_isWord hword hrest heq, wordToken_of_ne hname]
  | number _ hc hcs hvalue =>
    rw [List.cons_append] at heq
    obtain ⟨rfl, rfl⟩ := List.cons.inj heq
    rw [readToken_of_number hc hcs hrest, numberToken]
    exact congrArg (·, rest) (if_pos hvalue)
  | tooLarge _ hc hcs hvalue =>
    rw [List.cons_append] at heq
    obtain ⟨rfl, rfl⟩ := List.cons.inj heq
    rw [readToken_of_number hc hcs hrest, numberToken]
    exact congrArg (·, rest) (if_neg (Nat.not_le_of_lt hvalue))
  | @text content _ hcontent hfeed hquote =>
    rw [List.cons_append, List.cons_append, List.append_assoc] at heq
    obtain ⟨rfl, rfl⟩ := List.cons.inj heq
    rw [readToken_quote, readText_doubleQuotes [] _ hfeed, List.append_nil, List.singleton_append,
      readText_quote _ hquote, if_neg (by simpa using hcontent), List.reverse_reverse]
  | mark m => exact readToken_spelling heq

/-- A lexeme that could go on is a longer one with the next character. -/
theorem Lexeme.concat {lexeme rest : List Char} {value : Except LexicalError Token} {c d : Char}
    (h : Lexeme lexeme rest value) (hc : lexeme.head? = some c) (hd : goesOn c d)
    (behind : List Char) : IsLexeme (lexeme ++ [d]) behind := by
  have hword {word : String} (hword : IsWord word) (hhead : word.toList.head? = some c) :
      IsLexeme (word.toList ++ [d]) behind := by
    obtain ⟨e, es, htoList, he, hes⟩ := hword
    obtain rfl : e = c := by simpa [htoList] using hhead
    rw [goesOn_of_isWordStart he] at hd
    have hlonger : ∀ f ∈ es ++ [d], isWordPart f := by
      simpa [or_imp, forall_and] using ⟨hes, hd⟩
    simpa [htoList] using (isWord_ofList he hlonger).isLexeme behind
  have hnumber {e : Char} {es : List Char} (he : e.isDigit) (hes : ∀ f ∈ es, isNumberPart f)
      (hhead : (e :: es).head? = some c) : IsLexeme (e :: es ++ [d]) behind := by
    obtain rfl := Option.some.inj hhead
    rw [goesOn_of_isDigit he] at hd
    have hlonger : ∀ f ∈ es ++ [d], isNumberPart f := by
      simpa [or_imp, forall_and] using ⟨hes, hd⟩
    exact isLexeme_number he hlonger behind
  cases h with
  | keyword k => exact hword k.isWord_spelling hc
  | name _ h => exact hword h hc
  | number _ he hes => exact hnumber he hes hc
  | tooLarge _ he hes => exact hnumber he hes hc
  | text =>
    obtain rfl := Option.some.inj hc
    cases hd
  | mark m => cases m <;> cases hc <;> cases hd

/-- The characters a lexeme begins with begin neither a comment nor a gap. -/
theorem Lexeme.head {lexeme rest : List Char} {value : Except LexicalError Token}
    (h : Lexeme lexeme rest value) :
    ∃ c cs, lexeme = c :: cs ∧ c ≠ '{' ∧ isBlank c = false := by
  have hword : ∀ word, IsWord word →
      ∃ c cs, word.toList = c :: cs ∧ c ≠ '{' ∧ isBlank c = false := fun word h => by
    obtain ⟨c, cs, htoList, hc, -⟩ := h
    obtain ⟨-, -, -, hne⟩ := ne_of_isWordPart (isWordPart_of_isWordStart hc)
    exact ⟨c, cs, htoList, hne⟩
  have hnumber : ∀ c cs, c.isDigit →
      ∃ d ds, c :: cs = d :: ds ∧ d ≠ '{' ∧ isBlank d = false := fun c cs hc => by
    obtain ⟨-, -, -, hne⟩ := ne_of_isWordPart (isWordPart_of_isDigit hc)
    exact ⟨c, cs, rfl, hne⟩
  cases h with
  | keyword k => exact hword _ k.isWord_spelling
  | name _ h => exact hword _ h
  | number _ hc => exact hnumber _ _ hc
  | tooLarge _ hc => exact hnumber _ _ hc
  | text => exact ⟨_, _, rfl, by decide, by decide⟩
  | mark m => cases m <;> exact ⟨_, _, rfl, by decide, by decide⟩

/-- The longest lexeme is what is read. -/
theorem readToken_of_longest {lexeme rest : List Char} {value : Except LexicalError Token}
    {c : Char} {cs : List Char} (hlongest : Longest IsLexeme lexeme rest)
    (hlexeme : Lexeme lexeme rest value) (heq : lexeme ++ rest = c :: cs) :
    readToken c cs = (value, rest) := by
  refine readToken_of_lexeme hlexeme (hlongest.head_of_concat fun d behind hd => ?_) heq
  obtain ⟨e, es, rfl, -⟩ := hlexeme.head
  obtain ⟨rfl, -⟩ := List.cons.inj heq
  exact hlexeme.concat rfl hd behind

/-- A malformed text is refused, with the error it is malformed by. -/
theorem readToken_of_malformed {c : Char} {cs : List Char} {e : LexicalError} (hc : c ≠ '{')
    (h : Malformed (c :: cs) e) : (readToken c cs).1 = .error e := by
  generalize htext : c :: cs = text at h
  cases h with
  | unclosedComment => exact absurd (List.cons.inj htext).1 hc
  | unclosedText hfeed hrest =>
    rw [List.cons_append] at htext
    obtain ⟨rfl, rfl⟩ := List.cons.inj htext
    rw [readToken_quote, readText_doubleQuotes [] _ hfeed, readText_unclosed _ hrest]
  | emptyText hquote =>
    obtain ⟨rfl, rfl⟩ := List.cons.inj htext
    rw [readToken_quote, readText_quote _ hquote, if_pos rfl]
  | brokenAssignment hequals =>
    obtain ⟨rfl, rfl⟩ := List.cons.inj htext
    rw [readToken_colon hequals]
  | numberTooLarge hlongest hlexeme =>
    rw [readToken_of_longest hlongest hlexeme htext.symm]
  | @unknownCharacter d _ _ hword hdigit _ hquote hmark =>
    obtain ⟨rfl, rfl⟩ := List.cons.inj htext
    rw [readToken_unknown hword hdigit hquote hmark]

/-- A comment can only be malformed by its end. -/
theorem Malformed.eq_unclosedComment {body : List Char} {e : LexicalError}
    (h : Malformed ('{' :: body) e) : e = .unclosedComment := by
  generalize htext : '{' :: body = text at h
  cases h with
  | unclosedComment => rfl
  | numberTooLarge _ hlexeme =>
    obtain ⟨c, cs, rfl, hopen, -⟩ := hlexeme.head
    exact absurd (List.cons.inj htext).1.symm hopen
  | unknownCharacter _ _ _ hopen => exact absurd (List.cons.inj htext).1.symm hopen
  | _ => cases htext

/-! ### Texts without a token -/

/-- Some lexeme stands at the beginning of the text. -/
def BeginsWithLexeme (cs : List Char) : Prop :=
  ∃ lexeme rest, lexeme ++ rest = cs ∧ IsLexeme lexeme rest

theorem lexeme_or_malformed_quote (cs : List Char) :
    BeginsWithLexeme ('\'' :: cs) ∨ ∃ e, Malformed ('\'' :: cs) e := by
  obtain ⟨content, rest, rfl, hfeed, hend | ⟨behind, rfl, hclosed⟩⟩ := exists_content cs
  · exact .inr ⟨_, .unclosedText hfeed hend⟩
  · cases content with
    | nil => exact .inr ⟨_, .emptyText hclosed⟩
    | cons d content =>
      exact .inl ⟨'\'' :: Token.doubleQuotes (d :: content) ++ ['\''], behind, by simp, _,
        .text (by simp) hfeed hclosed⟩

theorem lexeme_or_malformed_mark {m : Mark} {c : Char} (cs : List Char)
    (hm : m.spelling.toList.head? = some c) :
    BeginsWithLexeme (c :: cs) ∨ ∃ e, Malformed (c :: cs) e := by
  by_cases hbecomes : m = .becomes
  · subst hbecomes
    obtain rfl : ':' = c := Option.some.inj hm
    by_cases hequals : cs.head? = some '='
    · obtain ⟨rest, rfl⟩ := List.head?_eq_some_iff.mp hequals
      exact .inl ⟨[':', '='], rest, rfl, _, .mark .becomes rest⟩
    · exact .inr ⟨_, .brokenAssignment hequals⟩
  · have hmark := Lexeme.mark m cs
    rw [Mark.toList_spelling hbecomes hm] at hmark
    exact .inl ⟨[c], cs, rfl, _, hmark⟩

theorem lexeme_or_malformed {c : Char} {cs : List Char} (hblank : isBlank c = false)
    (hcomment : c = '{' → '}' ∉ cs) :
    BeginsWithLexeme (c :: cs) ∨ ∃ e, Malformed (c :: cs) e := by
  by_cases hopen : c = '{'
  · subst hopen
    exact .inr ⟨_, .unclosedComment (hcomment rfl)⟩
  by_cases hword : isWordStart c = true
  · have hletter : IsWord (String.ofList [c]) := isWord_ofList hword (by simp)
    exact .inl ⟨[c], cs, rfl, by simpa using hletter.isLexeme cs⟩
  by_cases hdigit : c.isDigit = true
  · exact .inl ⟨[c], cs, rfl, isLexeme_number hdigit (by simp) cs⟩
  by_cases hquote : c = '\''
  · subst hquote
    exact lexeme_or_malformed_quote cs
  by_cases hmark : ∃ m : Mark, m.spelling.toList.head? = some c
  · obtain ⟨m, hm⟩ := hmark
    exact lexeme_or_malformed_mark cs hm
  · exact .inr ⟨_, .unknownCharacter hblank (Bool.eq_false_iff.mpr hword)
      (Bool.eq_false_iff.mpr hdigit) hopen hquote fun m hm => hmark ⟨m, hm⟩⟩

/-- A text that begins with no blank, no complete comment and no token is malformed. -/
theorem malformed_of_no_token {c : Char} {cs : List Char} (hblank : isBlank c = false)
    (hcomment : c = '{' → '}' ∉ cs)
    (h : ∀ lexeme rest t, lexeme ++ rest = c :: cs → ¬ TokenAt lexeme rest t) :
    ∃ e, Malformed (c :: cs) e := by
  obtain ⟨lexeme, rest, heq, his⟩ | hmalformed := lexeme_or_malformed hblank hcomment
  · -- a longest lexeme that is no token is a number out of range
    obtain ⟨longest, behind, heq', hlongest⟩ := exists_longest his
    have htext := heq'.trans heq
    obtain ⟨e | t, hread⟩ := hlongest.1
    · exact ⟨e, htext ▸ .numberTooLarge hlongest hread⟩
    · exact absurd ⟨hlongest, hread⟩ (h longest behind t htext)
  · exact hmalformed

end PlZero
