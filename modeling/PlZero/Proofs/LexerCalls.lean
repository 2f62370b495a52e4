import PlZero.Proofs.Lines

/-!
# Calls of the lexer

A lexer can be asked in two ways, in any order and as often as one likes (`Lexer.Call`): to read on,
or for the next item of its text, which is given no more once the last one has been given.

Whatever has been asked, the lexer stands in its text and has counted the lines in front of its
place (`Lexer.StandsIn.after`), since each call takes what it has read from the front of the text
(`Cursor.exists_taken`). Nothing is taken for the end of the input and for a character that begins
no token, so these are given again and again (`Cursor.next_of_isEndOrUnknown`). Only the items that
have been asked for one by one come to an end (`Lexer.finished_after`).
-/

namespace PlZero

variable {text : String} {c : Char} {cs ds : List Char} {line : Line}

/-! ### What is taken for an item -/

/-- A gap is skipped from the front, and its line feeds are counted. -/
theorem exists_skipped (inside : Bool) (line : Line) (cs : List Char) :
    ∃ gap, cs = gap ++ (skipGap inside line cs).rest ∧
      (skipGap inside line cs).line = gap.foldl Line.after line := by
  induction cs generalizing inside line with
  | nil => exact ⟨[], by cases inside <;> rfl, by cases inside <;> rfl⟩
  | cons c cs ih =>
    cases inside with
    | true =>
      obtain ⟨gap, hcs, hline⟩ := ih (c ≠ '}') (line.after c)
      exact ⟨c :: gap, congrArg (c :: ·) hcs, hline⟩
    | false =>
      by_cases hopen : c = '{'
      · subst hopen
        obtain ⟨gap, hcs, hline⟩ := ih true line
        exact ⟨'{' :: gap, congrArg ('{' :: ·) hcs, hline⟩
      · by_cases hblank : isBlank c
        · obtain ⟨gap, hcs, hline⟩ := ih false (line.after c)
          exact ⟨c :: gap, by simp [skipGap, hopen, hblank, ← hcs],
            by simp [skipGap, hopen, hblank, hline]⟩
        · exact ⟨[], by simp [skipGap, hopen, hblank], by simp [skipGap, hopen, hblank]⟩

/-- What is left behind a gap begins neither with a blank nor with a comment. -/
theorem head_of_skipGap {inside : Bool} (h : (skipGap inside line cs).rest = c :: ds) :
    (skipGap inside line cs).insideComment = false ∧ c ≠ '{' ∧ isBlank c = false := by
  induction cs generalizing inside line with
  | nil => cases inside <;> cases h
  | cons d cs ih =>
    cases inside with
    | true => exact ih h
    | false =>
      simp only [skipGap] at h ⊢
      split at h
      · next hopen => simpa [hopen] using ih h
      · next hopen =>
        split at h
        · next hblank => simpa [hopen, hblank] using ih h
        · next hblank =>
          obtain ⟨rfl, rfl⟩ := List.cons.inj h
          simp [hopen, hblank]

/-- The end of the input, or a character that begins no token. -/
def isEndOrUnknown : Except LexicalError Token → Bool
  | .ok .endOfInput | .error (.unknownCharacter _) => true
  | _ => false

theorem isEndOrUnknown_wordToken (word : String) :
    isEndOrUnknown (.ok (wordToken word)) = false := by
  unfold wordToken
  split <;> rfl

theorem isEndOrUnknown_numberToken (digits : List Char) :
    isEndOrUnknown (numberToken digits) = false := by
  simp only [numberToken]
  split <;> rfl

theorem exists_text (content cs : List Char) :
    isEndOrUnknown (readText content cs).1 = false ∧
      ∃ taken, cs = taken ++ (readText content cs).2 ∧ '\n' ∉ taken := by
  fun_induction readText content cs with
  | case1 => exact ⟨rfl, [], rfl, by simp⟩
  | case2 content rest ih =>
    obtain ⟨hvalue, taken, hrest, hfeed⟩ := ih
    exact ⟨hvalue, '\'' :: '\'' :: taken, by simp [← hrest], by simpa using hfeed⟩
  | case3 | case4 => exact ⟨rfl, ['\''], rfl, by decide⟩
  | case5 => exact ⟨rfl, [], rfl, by simp⟩
  | case6 content c cs hquote hfeed ih =>
    obtain ⟨hvalue, taken, hcs, hnot⟩ := ih
    exact ⟨hvalue, c :: taken, by simp [← hcs], by simpa [eq_comm] using ⟨hfeed, hnot⟩⟩

/-- Something is taken for a token and for a failure, unless its first character begins no token. No
line feed is. -/
theorem exists_token (cs : List Char) (hc : isBlank c = false) :
    ∃ taken, c :: cs = taken ++ (readToken c cs).2 ∧ '\n' ∉ taken ∧
      (taken = [] ↔ isEndOrUnknown (readToken c cs).1 = true) := by
  have hnot : '\n' ∉ [c] := fun hmem => by
    rw [← List.mem_singleton.mp hmem] at hc
    cases hc
  have hwhile (p : Char → Bool) (hp : p '\n' = false) : '\n' ∉ c :: cs.takeWhile p := by
    intro hmem
    rcases List.mem_cons.mp hmem with heq | hmem
    · exact hnot (List.mem_singleton.mpr heq)
    · have hfeed := List.all_eq_true.mp List.all_takeWhile _ hmem
      rw [hp] at hfeed
      cases hfeed
  have hparts (p : Char → Bool) : c :: cs = (c :: cs.takeWhile p) ++ cs.dropWhile p := by simp
  unfold readToken
  split
  · exact ⟨[c], rfl, hnot, by simp [isEndOrUnknown]⟩
  · split
    · split
      · exact ⟨[c], rfl, hnot, by simp [isEndOrUnknown]⟩
      · next d rest =>
        split
        · next hequals =>
          exact ⟨[c, d], rfl, by simpa [hequals] using hnot, by simp [isEndOrUnknown]⟩
        · exact ⟨[c], rfl, hnot, by simp [isEndOrUnknown]⟩
    · split
      · obtain ⟨hvalue, taken, hcs, hfeed⟩ := exists_text [] cs
        refine ⟨c :: taken, by rw [List.cons_append, ← hcs], ?_, by simp [hvalue]⟩
        simpa using ⟨by simpa using hnot, hfeed⟩
      · split
        · exact ⟨_, hparts isWordPart, hwhile _ (by decide),
            by simp [isEndOrUnknown_wordToken]⟩
        · split
          · exact ⟨_, hparts isNumberPart, hwhile _ (by decide),
              by simp [isEndOrUnknown_numberToken]⟩
          · exact ⟨[], rfl, by simp, by simp [isEndOrUnknown]⟩

namespace Cursor

/-- **What is read is taken from the front of the text**, and its line feeds are counted. -/
theorem exists_taken (c : Cursor) :
    ∃ taken, c.rest = taken ++ c.next.2.rest ∧ c.next.2.line = taken.foldl Line.after c.line ∧
      (isEndOrUnknown c.next.1.value = false → taken ≠ []) := by
  obtain ⟨cs, line⟩ := c
  obtain ⟨gap, hcs, hline⟩ := exists_skipped false line cs
  cases hrest : (skipGap false line cs).rest with
  | nil =>
    refine ⟨gap, ?_, ?_, fun hvalue => ?_⟩
    · simpa [next, afterGap, hrest] using hcs
    · simpa [next, afterGap, hrest] using hline
    · -- Only inside a comment is something taken for what the end of the text gives.
      rintro rfl
      obtain rfl : cs = [] := by simpa [hrest] using hcs
      simp [next, skipGap, afterGap, isEndOrUnknown] at hvalue
  | cons d ds =>
    obtain ⟨-, -, hblank⟩ := head_of_skipGap hrest
    obtain ⟨taken, hds, hfeed, hnothing⟩ := exists_token ds hblank
    refine ⟨gap ++ taken, ?_, ?_, fun hvalue happend => ?_⟩
    · simpa [next, afterGap, hrest, ← hds] using hcs
    · rw [List.foldl_append, ← hline, foldl_after_of_not_mem hfeed]
      simp [next, afterGap, hrest]
    · have htaken := hnothing.mp (List.append_eq_nil_iff.mp happend).2
      simp [next, afterGap, hrest, htaken] at hvalue

/-- **The end of the input and an unknown character are read again**, at the same place. -/
theorem next_of_isEndOrUnknown {c : Cursor} (h : isEndOrUnknown c.next.1.value = true) :
    c.next.2.next = c.next := by
  obtain ⟨cs, line⟩ := c
  simp only [next] at h ⊢
  cases hrest : (skipGap false line cs).rest with
  | nil =>
    cases hinside : (skipGap false line cs).insideComment with
    | true => simp [afterGap, hrest, hinside, isEndOrUnknown] at h
    | false => simp [afterGap, hrest, hinside, skipGap]
  | cons d ds =>
    obtain ⟨-, hopen, hblank⟩ := head_of_skipGap hrest
    obtain ⟨taken, hds, -, hnothing⟩ := exists_token ds hblank
    simp only [afterGap, hrest] at h ⊢
    obtain rfl := hnothing.mpr h
    have hread : (readToken d ds).2 = d :: ds := hds.symm
    simp [hread, skipGap, hopen, hblank]

end Cursor

/-! ### Calls -/

namespace Lexer

/-- The two ways to ask a lexer. -/
inductive Call
  /-- Reads on, whether or not the items have come to an end. -/
  | next
  /-- Asks for the next item, as long as the last one has not been given. -/
  | nextItem
  deriving DecidableEq, Repr

/-- What a call gives, if anything, and the lexer behind it. -/
def answer (l : Lexer) : Call → Option Item × Lexer
  | .next => (some l.next.1, l.next.2)
  | .nextItem => l.nextItem?

/-- The lexer behind calls. -/
def after (l : Lexer) (calls : List Call) : Lexer :=
  calls.foldl (fun l call => (l.answer call).2) l

/-- The calls, each with what it gives. -/
def answers : Lexer → List Call → List (Call × Option Item)
  | _, [] => []
  | l, call :: calls => (call, (l.answer call).1) :: answers (l.answer call).2 calls

/-- One of the calls has asked for an item, and been given the last one. -/
def HasGivenLast (l : Lexer) (calls : List Call) : Prop :=
  ∃ i, (.nextItem, some i) ∈ l.answers calls ∧ Cursor.isLast i = true

variable {l : Lexer} {call : Call} {calls : List Call} {i : Item}

theorem after_cons (l : Lexer) (call : Call) (calls : List Call) :
    l.after (call :: calls) = (l.answer call).2.after calls := rfl

/-- A call gives what the cursor reads next, or nothing, and then it leaves the lexer alone. -/
theorem answer_cases (l : Lexer) (call : Call) :
    l.answer call = (none, l) ∨
      (l.answer call).1 = some l.cursor.next.1 ∧ (l.answer call).2.cursor = l.cursor.next.2 := by
  cases call with
  | next => exact .inr ⟨rfl, rfl⟩
  | nextItem =>
    rw [answer, nextItem?]
    split
    · exact .inl rfl
    · exact .inr ⟨rfl, rfl⟩

/-- The lexer is behind the text `front`, and has counted its lines. -/
def StandsBehind (l : Lexer) (text : String) (front : List Char) : Prop :=
  text.toList = front ++ l.cursor.rest ∧ l.cursor.line = lineBehind front

/-- **A call goes on in the text**, or stays where it is. -/
theorem StandsBehind.answer {front : List Char} (h : l.StandsBehind text front) (call : Call) :
    ∃ front', (l.answer call).2.StandsBehind text front' := by
  rcases l.answer_cases call with hnone | ⟨-, hcursor⟩
  · exact ⟨front, by rw [hnone]; exact h⟩
  · obtain ⟨taken, hrest, hline, -⟩ := l.cursor.exists_taken
    refine ⟨front ++ taken, ?_, ?_⟩
    · rw [hcursor, List.append_assoc, ← hrest, h.1]
    · rw [hcursor, hline, lineBehind_append, h.2]

/-- **Whatever is asked, the lexer stands in its text** and has counted the lines. -/
theorem StandsBehind.after {front : List Char} (h : l.StandsBehind text front)
    (calls : List Call) : ∃ front', (l.after calls).StandsBehind text front' := by
  induction calls generalizing l front with
  | nil => exact ⟨front, h⟩
  | cons call calls ih =>
    obtain ⟨front', h'⟩ := h.answer call
    exact ih h'

/-- Where nothing is taken for an item, no call goes on. -/
theorem cursor_after (h : l.cursor.next.2 = l.cursor) (calls : List Call) :
    (l.after calls).cursor = l.cursor := by
  induction calls generalizing l with
  | nil => rfl
  | cons call calls ih =>
    have hcursor : (l.answer call).2.cursor = l.cursor := by
      rcases l.answer_cases call with hnone | ⟨-, hcursor⟩
      · rw [hnone]
      · exact hcursor.trans h
    rw [after_cons, ih (by rw [hcursor, h]), hcursor]

/-- **The items come to an end with the last one that has been asked for as an item.** -/
theorem finished_after (l : Lexer) (calls : List Call) :
    (l.after calls).finished = true ↔ l.finished = true ∨ l.HasGivenLast calls := by
  induction calls generalizing l with
  | nil => simp [after, HasGivenLast, answers]
  | cons call calls ih =>
    have hanswers : l.HasGivenLast (call :: calls) ↔
        (call = .nextItem ∧ ∃ i, (l.answer call).1 = some i ∧ Cursor.isLast i = true) ∨
          (l.answer call).2.HasGivenLast calls := by
      simp only [HasGivenLast, answers, List.mem_cons, Prod.mk.injEq]
      constructor
      · rintro ⟨i, ⟨rfl, hi⟩ | hi, hlast⟩
        · exact .inl ⟨rfl, i, hi.symm, hlast⟩
        · exact .inr ⟨i, hi, hlast⟩
      · rintro (⟨rfl, i, hi, hlast⟩ | ⟨i, hi, hlast⟩)
        · exact ⟨i, .inl ⟨rfl, hi.symm⟩, hlast⟩
        · exact ⟨i, .inr hi, hlast⟩
    have hfinished : (l.answer call).2.finished = true ↔ l.finished = true ∨
        call = .nextItem ∧ ∃ i, (l.answer call).1 = some i ∧ Cursor.isLast i = true := by
      cases call with
      | next => simp [answer, Lexer.next]
      | nextItem => cases h : l.finished <;> simp [answer, nextItem?, h]
    rw [after_cons, ih, hfinished, hanswers, or_assoc]

/-- **A lexer may be asked in any order.** After any calls it stands somewhere in its text, on line
one and as many more as there are line feeds in front of this place. What another call gives has
been taken from there, unless it is the end of the input or a character that begins no token; this
is then what the lexer reads for ever. Items that are asked for one by one are what the lexer reads
as well. They come to an end with the first of them that is the end of the input or a failure, and
with nothing else: then there are no more, and asking for one changes nothing. -/
theorem lexer_of_calls (text : String) (hcount : text.toList.count '\n' < UInt32.size - 1)
    (calls : List Call) :
    let l := (start text).after calls
    (∃ front, text.toList = front ++ l.cursor.rest ∧
      l.cursor.line.toNat = 1 + front.count '\n') ∧
    (∀ call i, (l.answer call).1 = some i →
      if isEndOrUnknown i.value then
        ∀ more, ((l.answer call).2.after more).next.1 = i
      else ∃ taken, taken ≠ [] ∧ l.cursor.rest = taken ++ (l.answer call).2.cursor.rest) ∧
    (¬ (start text).HasGivenLast calls →
      l.nextItem?.1 = some l.next.1 ∧ l.nextItem?.2.cursor = l.next.2.cursor) ∧
    ((start text).HasGivenLast calls → l.nextItem? = (none, l)) := by
  intro l
  have hstart : (start text).StandsBehind text [] := ⟨rfl, rfl⟩
  have hended : l.finished = true ↔ (start text).HasGivenLast calls :=
    ((start text).finished_after calls).trans ⟨fun h => h.resolve_left nofun, .inr⟩
  refine ⟨?_, fun call i hi => ?_, fun hgiven => ?_, fun hgiven => ?_⟩
  · obtain ⟨front, htext, hline⟩ := hstart.after calls
    refine ⟨front, htext, ?_⟩
    rw [hline, toNat_lineBehind]
    exact Nat.lt_of_le_of_lt (count_newline_le ⟨_, htext.symm⟩) hcount
  · rcases l.answer_cases call with hnone | ⟨hsome, hcursor⟩
    · rw [hnone] at hi
      cases hi
    · obtain rfl : i = l.cursor.next.1 := Option.some.inj (hi.symm.trans hsome)
      split
      · next hvalue =>
        intro more
        have hagain := Cursor.next_of_isEndOrUnknown hvalue
        have hstays : (l.answer call).2.cursor.next.2 = (l.answer call).2.cursor := by
          rw [hcursor, hagain]
        rw [next, cursor_after hstays, hcursor, hagain]
      · next hvalue =>
        obtain ⟨taken, hrest, -, hne⟩ := l.cursor.exists_taken
        exact ⟨taken, hne (Bool.eq_false_iff.mpr hvalue), by rw [hcursor, hrest]⟩
  · have hgoing : l.finished = false := Bool.eq_false_iff.mpr (mt hended.mp hgiven)
    simp [nextItem?, hgoing, next]
  · simp [nextItem?, hended.mpr hgiven]

/-- The name has been asked for as an item, and the lexer has read on over the comment before the
next item is asked for: it is the character behind the comment, for ever, and there are no more
items. -/
theorem lexer_of_calls_unknown :
    let text := "a\n\x7b\n\x7d!:"
    let l := (start text).after [.nextItem, .next]
    let ended := (start text).after [.nextItem, .next, .nextItem]
    let i : Item := ⟨3, .error (.unknownCharacter '!')⟩
    text.toList.count '\n' < UInt32.size - 1 ∧ (l.answer .nextItem).1 = some i ∧
      (∀ more, ((l.answer .nextItem).2.after more).next.1 = i) ∧
      (start text).HasGivenLast [.nextItem, .next, .nextItem] ∧
      ended.nextItem? = (none, ended) := by
  intro text l ended i
  have hcount : text.toList.count '\n' < UInt32.size - 1 := by decide +kernel
  have hitem : (l.answer .nextItem).1 = some i := by decide +kernel
  have hlast : (start text).HasGivenLast [.nextItem, .next, .nextItem] :=
    ⟨i, by decide +kernel, rfl⟩
  obtain ⟨-, hanswer, -, -⟩ := lexer_of_calls text hcount [.nextItem, .next]
  obtain ⟨-, -, -, hended⟩ := lexer_of_calls text hcount [.nextItem, .next, .nextItem]
  exact ⟨hcount, hitem, hanswer .nextItem i hitem, hlast, hended hlast⟩

end Lexer

end PlZero
