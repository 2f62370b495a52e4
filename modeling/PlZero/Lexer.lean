import PlZero.Token

/-!
# Reading tokens

A `Cursor` is the text not yet read and the line it begins on. Reading one token
(`Cursor.next`) skips the gap of blanks and comments before it and then reads the token
itself (`readToken`). Only gaps hold line feeds, so the line at which the gap ends is the
line of the whole token, and of the failure if there is no token there.

A failure leaves the cursor behind what was read of the bad token: an unknown character is
not read at all, a `:` without its `=` is, and a quoted text that the line ends is read up
to its end.

`Cursor.items` is everything that a text gives: its tokens up to the end of the input, or up
to the first failure. A `Lexer` gives the same items one by one (`Lexer.nextItem?`) and can
also be read past its end (`Lexer.next`).
-/

namespace PlZero

/-- Why a text has no token at some place. -/
inductive LexicalError
  | unknownCharacter (c : Char)
  | brokenAssignment (found : String)
  | unclosedComment
  | unclosedText
  | emptyText
  | numberTooLarge (digits : String)
  deriving DecidableEq, Repr

/-! ### Classes of characters -/

/-- Blanks separate tokens. -/
def isBlank (c : Char) : Bool :=
  c = ' ' || c = '\t' || c = '\r' || c = '\n'

/-- Words begin with an ASCII letter or an underscore. -/
def isWordStart (c : Char) : Bool :=
  c.isAlpha || c = '_'

/-- Words go on with ASCII letters, digits and underscores. -/
def isWordPart (c : Char) : Bool :=
  c.isAlphanum || c = '_'

/-- Numbers go on with ASCII digits, and with underscores that only separate them. -/
def isNumberPart (c : Char) : Bool :=
  c.isDigit || c = '_'

/-! ### Gaps -/

/-- What is left of a text once the gap at its beginning has been skipped. -/
structure Gap where
  /-- Whether the text ended inside a comment. -/
  insideComment : Bool
  line : Line
  rest : List Char

/-- Skips blanks and comments; the flag says whether the text begins inside a comment, which
ends with the first closing brace. -/
def skipGap : Bool → Line → List Char → Gap
  | insideComment, line, [] => ⟨insideComment, line, []⟩
  | true, line, c :: cs => skipGap (c ≠ '}') (line.after c) cs
  | false, line, c :: cs =>
    if c = '{' then skipGap true line cs
    else if isBlank c then skipGap false (line.after c) cs
    else ⟨false, line, c :: cs⟩

theorem length_rest_skipGap_le (inside : Bool) (line : Line) (cs : List Char) :
    (skipGap inside line cs).rest.length ≤ cs.length := by
  induction cs generalizing inside line with
  | nil => cases inside <;> simp [skipGap]
  | cons c cs ih =>
    cases inside with
    | true => simpa [skipGap] using Nat.le_succ_of_le (ih _ _)
    | false =>
      simp only [skipGap]
      split
      · exact Nat.le_succ_of_le (ih _ _)
      · split
        · exact Nat.le_succ_of_le (ih _ _)
        · exact Nat.le_refl _

/-! ### Single tokens -/

/-- A token or the reason why there is none, and the text after it. -/
abbrev Reading := Except LexicalError Token × List Char

/-- The number with the given digits, if it is in range. -/
def numberToken (digits : List Char) : Except LexicalError Token :=
  let value := Nat.ofDigitChars 10 digits 0
  if value ≤ maxNumber then .ok (.number value (String.ofList digits))
  else .error (.numberTooLarge (String.ofList digits))

/-- A word is a keyword if it is spelled like one, and a name otherwise. -/
def wordToken (word : String) : Token :=
  match Keyword.ofSpelling? word with
  | some k => .keyword k
  | none => .name word

/-- Reads the content of a quoted text, after its opening quote, up to its closing one;
`content` is what has been read of it, backwards. Two quotes stand for one, and the content
stays on one line. -/
def readText (content : List Char) : List Char → Reading
  | [] => (.error .unclosedText, [])
  | c :: cs =>
    if c = '\'' then
      match cs with
      | '\'' :: rest => readText ('\'' :: content) rest
      | rest =>
        match content with
        | [] => (.error .emptyText, rest)
        | _ :: _ => (.ok (.text (String.ofList content.reverse)), rest)
    else if c = '\n' then (.error .unclosedText, c :: cs)
    else readText (c :: content) cs

/-- Reads the token that begins with `c`, which is no blank and opens no comment, and goes
on in `cs`. -/
def readToken (c : Char) (cs : List Char) : Reading :=
  match Mark.ofChar? c with
  | some m => (.ok (.mark m), cs)
  | none =>
    if c = ':' then
      match cs with
      | [] => (.error (.brokenAssignment ""), [])
      | d :: rest =>
        if d = '=' then (.ok (.mark .becomes), rest)
        else (.error (.brokenAssignment (String.singleton d)), d :: rest)
    else if c = '\'' then readText [] cs
    else if isWordStart c then
      (.ok (wordToken (String.ofList (c :: cs.takeWhile isWordPart))), cs.dropWhile isWordPart)
    else if c.isDigit then
      (numberToken ((c :: cs.takeWhile isNumberPart).filter Char.isDigit),
        cs.dropWhile isNumberPart)
    else (.error (.unknownCharacter c), c :: cs)

theorem length_dropWhile_le (p : Char → Bool) (cs : List Char) :
    (cs.dropWhile p).length ≤ cs.length :=
  (List.dropWhile_suffix p).length_le

theorem length_readText_le (content cs : List Char) :
    (readText content cs).2.length ≤ cs.length := by
  fun_induction readText content cs <;> simp_all <;> omega

/-- A token takes at least its first character, so what follows it is no longer than what
followed that. -/
theorem length_readToken_le {c : Char} {cs rest : List Char} {t : Token}
    (h : readToken c cs = (.ok t, rest)) : rest.length ≤ cs.length := by
  unfold readToken at h
  split at h
  · cases h
    exact Nat.le_refl _
  · split at h
    · split at h
      · cases h
      · split at h <;> cases h
        exact Nat.le_succ _
    · split at h
      · simpa [h] using length_readText_le [] cs
      · split at h
        · cases h
          exact length_dropWhile_le isWordPart cs
        · split at h
          · cases (Prod.mk.inj h).2
            exact length_dropWhile_le isNumberPart cs
          · cases h

/-! ### The cursor -/

/-- One outcome of reading: a token or the reason why there is none, with its line. -/
abbrev Item := Located (Except LexicalError Token)

/-- The text not yet read, and the line on which it begins. -/
structure Cursor where
  rest : List Char
  line : Line

namespace Cursor

/-- The cursor before the first character of a text. -/
def start (text : String) : Cursor := ⟨text.toList, .first⟩

/-- Reads the token behind a gap. -/
def afterGap (gap : Gap) : Item × Cursor :=
  match gap.rest with
  | [] =>
    (⟨gap.line, if gap.insideComment then .error .unclosedComment else .ok .endOfInput⟩,
      ⟨[], gap.line⟩)
  | c :: cs => (⟨gap.line, (readToken c cs).1⟩, ⟨(readToken c cs).2, gap.line⟩)

/-- Reads the next item. At the end of the text this is the token `endOfInput`, however
often it is read. -/
def next (c : Cursor) : Item × Cursor :=
  afterGap (skipGap false c.line c.rest)

/-- Whether an item is the last one of its text: the end of the input or a failure. -/
def isLast (i : Item) : Bool :=
  match i.value with
  | .ok .endOfInput => true
  | .ok _ => false
  | .error _ => true

theorem length_afterGap_lt {gap : Gap} (h : isLast (afterGap gap).1 = false) :
    (afterGap gap).2.rest.length < gap.rest.length := by
  obtain ⟨inside, line, rest⟩ := gap
  cases rest with
  | nil => cases inside <;> simp [afterGap, isLast] at h
  | cons c cs =>
    simp only [afterGap] at h ⊢
    generalize hr : readToken c cs = r at h
    obtain ⟨value, rest⟩ := r
    cases value with
    | error e => simp [isLast] at h
    | ok t => exact Nat.lt_succ_of_le (length_readToken_le hr)

/-- Reading an item that is not the last one takes at least one character. -/
theorem length_next_lt {c : Cursor} (h : isLast c.next.1 = false) :
    c.next.2.rest.length < c.rest.length :=
  Nat.lt_of_lt_of_le (length_afterGap_lt h) (length_rest_skipGap_le false c.line c.rest)

/-- The items from the cursor on, in front of which stand those in `done`, the latest first. -/
def itemsOnto (done : List Item) (c : Cursor) : List Item :=
  if isLast c.next.1 then (c.next.1 :: done).reverse
  else itemsOnto (c.next.1 :: done) c.next.2
termination_by c.rest.length
decreasing_by exact length_next_lt (by simp_all)

/-- Everything that is read from the cursor on, up to the end of the input or the first
failure. -/
def items (c : Cursor) : List Item := itemsOnto [] c

end Cursor

/-- The items of a program text. -/
def Source.items (source : Source) : List Item := (Cursor.start source.text).items

/-! ### Reading item by item -/

/-- A cursor that remembers whether its items have come to an end. -/
structure Lexer where
  cursor : Cursor
  finished : Bool

namespace Lexer

/-- A lexer before the first character of a text. -/
def start (text : String) : Lexer := ⟨.start text, false⟩

/-- Reads on, whether or not the items have come to an end. -/
def next (l : Lexer) : Item × Lexer :=
  (l.cursor.next.1, { l with cursor := l.cursor.next.2 })

/-- The next item, as long as the last one has not been given. -/
def nextItem? (l : Lexer) : Option Item × Lexer :=
  if l.finished then (none, l)
  else (some l.cursor.next.1, ⟨l.cursor.next.2, Cursor.isLast l.cursor.next.1⟩)

end Lexer

end PlZero
