import PlZero.Proofs.Lexemes

/-!
# Reading character by character

An item can be read in a loop that looks at one character in each turn and remembers what it is in
the middle of (`Phase`). The phase and the character decide about the turn (`Phase.turn`): the
character is taken, or the loop ends, or, at the first digit of a number, the character is looked at
once more.

The loop does what the cursor does (`Scan.ends_ofCursor`): it ends, with the next item and behind
it, and it has made one turn for each character that it has taken, one to end, and at most one more.
-/

namespace PlZero

/-! ### Turns -/

/-- What the loop is in the middle of. What it has collected is kept backwards. -/
inductive Phase
  /-- In front of a token. -/
  | start
  /-- Behind the last character of the token. -/
  | complete (t : Token)
  | colon
  | comment
  | number (digits : List Char)
  | word (chars : List Char)
  | text (content : List Char)
  /-- Behind a quote, which closes the text if no other one follows. -/
  | quote (content : List Char)
  deriving DecidableEq, Repr

/-- What is done in a turn. -/
inductive Turn
  /-- The loop ends. -/
  | stop (value : Except LexicalError Token)
  /-- The character is taken. -/
  | take (phase : Phase)
  /-- The character is looked at again. -/
  | again (phase : Phase)

/-- The turn at a character, or at the end of the text. -/
def Phase.turn : Phase → Option Char → Turn
  | start, none => .stop (.ok .endOfInput)
  | start, some c =>
    match Mark.ofChar? c with
    | some m => .take (complete (.mark m))
    | none =>
      if c = ':' then .take colon
      else if c = '{' then .take comment
      else if c = '\'' then .take (text [])
      else if isWordStart c then .take (word [c])
      else if c.isDigit then .again (number [])
      else if isBlank c then .take start
      else .stop (.error (.unknownCharacter c))
  | complete t, _ => .stop (.ok t)
  | colon, next =>
    if next = some '=' then .take (complete (.mark .becomes))
    else .stop (.error (.brokenAssignment (next.elim "" String.singleton)))
  | comment, none => .stop (.error .unclosedComment)
  | comment, some c => .take (if c = '}' then start else comment)
  | number digits, next =>
    match next.filter isNumberPart with
    | some c => .take (number (if c = '_' then digits else c :: digits))
    | none => .stop (numberToken digits.reverse)
  | word chars, next =>
    match next.filter isWordPart with
    | some c => .take (word (c :: chars))
    | none => .stop (.ok (wordToken (String.ofList chars.reverse)))
  | text _, none => .stop (.error .unclosedText)
  | text content, some c =>
    if c = '\'' then .take (quote content)
    else if c = '\n' then .stop (.error .unclosedText)
    else .take (text (c :: content))
  | quote content, next =>
    if next = some '\'' then .take (text ('\'' :: content))
    else if content = [] then .stop (.error .emptyText)
    else .stop (.ok (.text (String.ofList content.reverse)))

/-- Where the loop has got to. -/
structure Scan where
  phase : Phase
  cursor : Cursor
  /-- The line on which the token begins. -/
  begins : Line

namespace Scan

/-- The loop before its first turn. -/
def ofCursor (c : Cursor) : Scan := ⟨.start, c, c.line⟩

/-- One turn of the loop, which ends it with an item and the cursor behind it, or goes on. A token
has the line on which it begins, a failure the line of the cursor. -/
def turn (s : Scan) : Item × Cursor ⊕ Scan :=
  let begins := if s.phase = .start then s.cursor.line else s.begins
  match s.phase.turn s.cursor.rest.head? with
  | .stop (.ok t) => .inl (⟨begins, .ok t⟩, s.cursor)
  | .stop (.error e) => .inl (⟨s.cursor.line, .error e⟩, s.cursor)
  | .take phase =>
    .inr ⟨phase, ⟨s.cursor.rest.tail, s.cursor.rest.head?.elim s.cursor.line s.cursor.line.after⟩,
      begins⟩
  | .again phase => .inr ⟨phase, s.cursor, begins⟩

/-- The loop ends after so many turns. -/
inductive Ends : Scan → Nat → Item × Cursor → Prop
  | stop {s : Scan} {r : Item × Cursor} (h : s.turn = .inl r) : Ends s 1 r
  | next {s s' : Scan} {n : Nat} {r : Item × Cursor} (h : s.turn = .inr s') (more : Ends s' n r) :
    Ends s (n + 1) r

/-- The next turn takes a character. -/
def Takes (s s' : Scan) : Prop :=
  s.turn = .inr s' ∧ ∃ c cs, s.cursor.rest = c :: cs ∧ s'.cursor = ⟨cs, s.cursor.line.after c⟩

/-! ### Each turn goes on -/

variable {s s' : Scan} {phase phase' : Phase} {c : Char} {cs : List Char} {line begins : Line}
  {r : Item × Cursor} {k : Nat}

theorem takes_of_turn (h : phase.turn (some c) = .take phase') :
    Takes ⟨phase, ⟨c :: cs, line⟩, begins⟩
      ⟨phase', ⟨cs, line.after c⟩, if phase = .start then line else begins⟩ :=
  ⟨by simp [turn, h], c, cs, rfl, rfl⟩

/-- At the end of the text, the loop ends. -/
theorem stop_of_turn_none (phase : Phase) : ∃ value, phase.turn none = .stop value := by
  cases phase with
  | quote content =>
    simp only [Phase.turn]
    split
    · next h => cases h
    · split <;> exact ⟨_, rfl⟩
  | _ => exact ⟨_, rfl⟩

/-- Only the first digit of a number is looked at again. -/
theorem again_cases (h : phase.turn (some c) = .again phase') :
    phase = .start ∧ phase' = .number [] ∧ c.isDigit = true := by
  unfold Phase.turn at h
  repeat' split at h
  all_goals cases h
  simp_all

/-- **A turn ends the loop, or takes a character, or stops in front of a number**, and then the next
turn takes its first digit. -/
theorem turn_cases (s : Scan) :
    (∃ i, s.turn = .inl (i, s.cursor)) ∨ (∃ s', s.Takes s') ∨
      s.phase = .start ∧ ∃ s' s'', s.turn = .inr s' ∧ s'.phase = .number [] ∧
        s'.cursor = s.cursor ∧ s'.Takes s'' := by
  obtain ⟨phase, ⟨cs, line⟩, begins⟩ := s
  have hstop {value} (h : phase.turn cs.head? = .stop value) :
      ∃ i, turn ⟨phase, ⟨cs, line⟩, begins⟩ = .inl (i, ⟨cs, line⟩) := by
    cases value <;> exact ⟨_, by simp [turn, h]; rfl⟩
  cases cs with
  | nil =>
    obtain ⟨value, h⟩ := stop_of_turn_none phase
    exact .inl (hstop h)
  | cons c cs =>
    cases h : phase.turn (some c) with
    | stop value => exact .inl (hstop h)
    | take phase' => exact .inr (.inl ⟨_, takes_of_turn h⟩)
    | again phase' =>
      obtain ⟨rfl, rfl, hc⟩ := again_cases h
      have htake : (Phase.number []).turn (some c) =
          .take (.number (if c = '_' then [] else [c])) := by
        simp [Phase.turn, Option.filter, isNumberPart, hc]
      exact .inr (.inr ⟨rfl, ⟨.number [], ⟨c :: cs, line⟩, line⟩, _, by simp [turn, h], rfl, rfl,
        takes_of_turn htake⟩)

/-! ### The loop ends -/

/-- The loop ends so, and the turns are at most `k` more than the characters that it takes. -/
def EndsIn (s : Scan) (r : Item × Cursor) (k : Nat) : Prop :=
  ∃ n, s.Ends n r ∧ n + r.2.rest.length ≤ s.cursor.rest.length + k

theorem EndsIn.stop (h : s.turn = .inl r) (hcursor : r.2 = s.cursor) : s.EndsIn r 1 :=
  ⟨1, .stop h, Nat.le_of_eq (by rw [hcursor, Nat.add_comm])⟩

theorem EndsIn.take (phase' : Phase) (h : phase.turn (some c) = .take phase')
    (more : EndsIn ⟨phase', ⟨cs, line.after c⟩, if phase = .start then line else begins⟩ r k) :
    EndsIn ⟨phase, ⟨c :: cs, line⟩, begins⟩ r k := by
  obtain ⟨n, hends, hle⟩ := more
  refine ⟨n + 1, .next (takes_of_turn h).1 hends, ?_⟩
  simp only [List.length_cons] at hle ⊢
  omega

theorem EndsIn.again (h : s.turn = .inr s') (hcursor : s'.cursor = s.cursor)
    (more : s'.EndsIn r k) : s.EndsIn r (k + 1) := by
  obtain ⟨n, hends, hle⟩ := more
  refine ⟨n + 1, .next h hends, ?_⟩
  rw [hcursor] at hle
  omega

theorem EndsIn.succ (h : s.EndsIn r k) : s.EndsIn r (k + 1) := by
  obtain ⟨n, hends, hle⟩ := h
  exact ⟨n, hends, Nat.le_succ_of_le hle⟩

theorem line_after (h : c ≠ '\n') : line.after c = line := if_neg h

theorem endsIn_word (chars cs : List Char) (line : Line) :
    EndsIn ⟨.word chars, ⟨cs, line⟩, line⟩
      (⟨line, .ok (wordToken (String.ofList (chars.reverse ++ cs.takeWhile isWordPart)))⟩,
        ⟨cs.dropWhile isWordPart, line⟩) 1 := by
  induction cs generalizing chars with
  | nil => exact .stop (by simp [turn, Phase.turn]) rfl
  | cons c cs ih =>
    cases hc : isWordPart c with
    | true =>
      have hfeed : c ≠ '\n' := by
        rintro rfl
        cases hc
      refine .take (.word (c :: chars)) (by simp [Phase.turn, Option.filter, hc]) ?_
      rw [line_after hfeed]
      simpa [hc] using ih (c :: chars)
    | false => exact .stop (by simp [turn, Phase.turn, Option.filter, hc]) (by simp [hc])

theorem endsIn_number (digits cs : List Char) (line : Line) :
    EndsIn ⟨.number digits, ⟨cs, line⟩, line⟩
      (⟨line, numberToken (digits.reverse ++ (cs.takeWhile isNumberPart).filter Char.isDigit)⟩,
        ⟨cs.dropWhile isNumberPart, line⟩) 1 := by
  have hstop (digits cs) (h : cs.head?.filter isNumberPart = none) :
      turn ⟨.number digits, ⟨cs, line⟩, line⟩ =
        .inl (⟨line, numberToken digits.reverse⟩, ⟨cs, line⟩) := by
    cases hvalue : numberToken digits.reverse <;> simp [turn, Phase.turn, h, hvalue]
  induction cs generalizing digits with
  | nil => exact .stop (by simpa using hstop digits [] rfl) rfl
  | cons c cs ih =>
    cases hc : isNumberPart c with
    | true =>
      have hfeed : c ≠ '\n' := by
        rintro rfl
        cases hc
      refine .take (.number (if c = '_' then digits else c :: digits))
        (by simp [Phase.turn, Option.filter, hc]) ?_
      rw [line_after hfeed]
      by_cases hseparator : c = '_'
      · have hdigit : c.isDigit = false := by rw [hseparator]; decide
        rw [if_pos hseparator]
        simpa [hc, hdigit] using ih digits
      · have hdigit : c.isDigit = true := by simpa [isNumberPart, hseparator] using hc
        simpa [hc, hseparator, hdigit] using ih (c :: digits)
    | false =>
      refine .stop ?_ (by simp [hc])
      simpa [hc] using hstop digits (c :: cs) (by simp [Option.filter, hc])

/-- Behind a quote that is not followed by another one, the loop ends. -/
theorem endsIn_quote (content : List Char) {rest : List Char}
    (hrest : ∀ behind, rest = '\'' :: behind → False) (line : Line) :
    EndsIn ⟨.quote content, ⟨rest, line⟩, line⟩
      (⟨line, if content = [] then .error .emptyText
        else .ok (.text (String.ofList content.reverse))⟩, ⟨rest, line⟩) 1 := by
  have hquote : rest.head? ≠ some '\'' := fun h => by
    obtain ⟨behind, rfl⟩ := List.head?_eq_some_iff.mp h
    exact hrest behind rfl
  refine .stop ?_ rfl
  by_cases hcontent : content = [] <;> simp [turn, Phase.turn, hquote, hcontent]

theorem endsIn_text (content cs : List Char) (line : Line) :
    EndsIn ⟨.text content, ⟨cs, line⟩, line⟩
      (⟨line, (readText content cs).1⟩, ⟨(readText content cs).2, line⟩) 1 := by
  fun_induction readText content cs with
  | case1 | case5 => exact .stop rfl rfl
  | case2 content rest ih =>
    exact .take (.quote content) rfl (.take (.text ('\'' :: content)) rfl ih)
  | case3 rest hrest => exact .take (.quote []) rfl (endsIn_quote [] hrest line)
  | case4 rest hrest c content =>
    exact .take (.quote (c :: content)) rfl (endsIn_quote (c :: content) hrest line)
  | case6 content c cs hquote hfeed ih =>
    refine .take (.text (c :: content)) (by simp [Phase.turn, hquote, hfeed]) ?_
    rw [line_after hfeed]
    exact ih

/-- In front of a token, the loop does what reading the token does. -/
theorem endsIn_token (cs : List Char) (hopen : c ≠ '{') (hblank : isBlank c = false)
    (line begins : Line) :
    EndsIn ⟨.start, ⟨c :: cs, line⟩, begins⟩
      (⟨line, (readToken c cs).1⟩, ⟨(readToken c cs).2, line⟩) 2 := by
  have htake (phase) (h : Phase.start.turn (some c) = .take phase) {r}
      (more : EndsIn ⟨phase, ⟨cs, line⟩, line⟩ r 1) :
      EndsIn ⟨.start, ⟨c :: cs, line⟩, begins⟩ r 2 := by
    have hfeed : c ≠ '\n' := by
      rintro rfl
      cases hblank
    -- Only in front of a number is there another turn to make.
    refine .succ (.take phase h ?_)
    simpa [line_after hfeed] using more
  unfold readToken
  split
  · next m hm => exact htake (.complete (.mark m)) (by simp [Phase.turn, hm]) (.stop rfl rfl)
  · next hm =>
    split
    · next hcolon =>
      refine htake .colon (by subst hcolon; rfl) ?_
      split
      · exact .stop rfl rfl
      · next d rest =>
        split
        · next hequals =>
          subst hequals
          exact .take (.complete (.mark .becomes)) rfl (.stop rfl rfl)
        · next hequals => exact .stop (by simp [turn, Phase.turn, hequals]) rfl
    · next hcolon =>
      split
      · next hquote =>
        exact htake (.text []) (by subst hquote; rfl) (endsIn_text [] cs line)
      · next hquote =>
        have hturn : Phase.start.turn (some c) =
            if isWordStart c then .take (.word [c])
            else if c.isDigit then .again (.number [])
            else .stop (.error (.unknownCharacter c)) := by
          simp [Phase.turn, hm, hcolon, hopen, hquote, hblank]
        split
        · next hword => exact htake (.word [c]) (by simp [hturn, hword]) (endsIn_word [c] cs line)
        · next hword =>
          split
          · next hdigit =>
            have hpart : isNumberPart c = true := by simp [isNumberPart, hdigit]
            have hnumber := endsIn_number [] (c :: cs) line
            rw [List.takeWhile_cons_of_pos hpart, List.dropWhile_cons_of_pos hpart] at hnumber
            have hagain : turn ⟨.start, ⟨c :: cs, line⟩, begins⟩ =
                .inr ⟨.number [], ⟨c :: cs, line⟩, line⟩ := by
              simp [turn, hturn, hword, hdigit]
            exact .again hagain rfl hnumber
          · next hdigit => exact .succ (.stop (by simp [turn, hturn, hword, hdigit]) rfl)

/-- In front of a gap and inside a comment, the loop does what skipping the gap and reading the
token behind it does. -/
theorem endsIn_gap (inside : Bool) (cs : List Char) (line begins : Line) :
    EndsIn ⟨if inside then .comment else .start, ⟨cs, line⟩, begins⟩
      (Cursor.afterGap (skipGap inside line cs)) 2 := by
  -- Behind a blank or a comment, the loop forgets where a token would have begun.
  induction cs generalizing inside line begins with
  | nil => cases inside <;> exact .succ (.stop rfl rfl)
  | cons c cs ih =>
    cases inside with
    | true =>
      refine .take (if c ≠ '}' then .comment else .start) ?_ ?_
      · by_cases hclose : c = '}' <;> simp [Phase.turn, hclose]
      · simpa [skipGap] using ih (c ≠ '}') (line.after c) begins
    | false =>
      by_cases hopen : c = '{'
      · subst hopen
        exact .take .comment rfl (ih true line line)
      · cases hblank : isBlank c with
        | true =>
          have hturn : Phase.start.turn (some c) = .take .start := by
            have hcases := hblank
            simp only [isBlank, Bool.or_eq_true, decide_eq_true_eq] at hcases
            obtain ((rfl | rfl) | rfl) | rfl := hcases <;> rfl
          refine .take .start hturn ?_
          simpa [skipGap, hopen, hblank] using ih false (line.after c) line
        | false =>
          simpa [skipGap, hopen, hblank, Cursor.afterGap] using
            endsIn_token cs hopen hblank line begins

/-- **The loop ends with the next item**, and behind it. It makes one turn for each character that
it takes, one to end and at most one more. -/
theorem ends_ofCursor (c : Cursor) :
    ∃ n, (ofCursor c).Ends n c.next ∧ n + c.next.2.rest.length ≤ c.rest.length + 2 :=
  endsIn_gap false c.rest c.line c.line

end Scan

end PlZero
