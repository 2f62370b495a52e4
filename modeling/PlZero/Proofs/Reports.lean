import PlZero.Proofs.Agreement
import PlZero.Proofs.Respelling
import PlZero.Proofs.SyntaxErrors
import PlZero.Proofs.Unbroken
import PlZero.Proofs.Written

/-!
# Reports

A report is to be one line (`IsLine`), so its message must be unbroken (`Unbroken`): it must not
hold a line feed. What a message shows of a program is unbroken, whatever the program is. Tokens do
not reach over the end of a line (`Source.unbroken_of_mem`), names that are checked later are words
(`Visited.isWord_of_names`), digits are digits, and a character that begins no token is escaped.

One character is shown as it is, the one behind a colon that should be `=`. If the line ends with
the colon, this is a line feed, and the report is broken in two. That is the only way to break one
(`isLine_report_iff`).
-/

namespace PlZero

open Goal

/-! ### Lines -/

theorem Unbroken.quoteWord {t : String} (h : Unbroken t) : Unbroken (quoteWord t) :=
  h.within (by decide) (by decide)

theorem unbroken_numberRange (least : Int) : Unbroken (numberRange least) :=
  have hleast : Unbroken ("[" ++ Text.decimal least ++ ", ") :=
    (unbroken_decimal least).within (by decide) (by decide)
  (unbroken_decimal maxNumber).within hleast (by decide)

/-- A report is one line just if its message is unbroken. -/
theorem isLine_reportLine_iff {kind sourceName message : String} {line : Line}
    (hkind : Unbroken kind) (hname : Unbroken sourceName) :
    IsLine (reportLine kind sourceName line message) ↔ Unbroken message := by
  have hhead : Unbroken ("pl0c: " ++ kind ++ ": " ++ place sourceName line ++ ": ") := by
    have hprogram : Unbroken "pl0c: " := by decide
    have hgap : Unbroken ": " := by decide
    have hcolon : Unbroken ":" := by decide
    have hplace : Unbroken (place sourceName line) :=
      (hname.append hcolon).append (unbroken_repr line.toNat)
    exact (((hprogram.append hkind).append hgap).append hplace).append hgap
  rw [reportLine, isLine_append_iff, unbroken_append_iff]
  exact and_iff_right hhead

theorem Failure.unbroken_kind (f : Failure) : Unbroken f.kind := by
  have hall : ∀ kind ∈ ["lexical error", "syntax error", "semantic error", "internal error",
    "output error"], Unbroken kind := by decide
  cases f <;> exact hall _ (by simp [Failure.kind])

/-! ### Tokens -/

/-- The digits that are left of a number, without the separators. -/
theorem unbroken_digits (cs : List Char) : Unbroken (String.ofList (cs.filter Char.isDigit)) :=
  unbroken_of_forall (p := Char.isDigit) rfl fun _ hc =>
    (List.mem_filter.mp (String.toList_ofList ▸ hc)).2

/-- What an error shows of the text: of a broken assignment at most one character, of a number its
digits. -/
def LexicalError.WellFormed : LexicalError → Prop
  | brokenAssignment found => found.toList.length ≤ 1
  | numberTooLarge digits => Unbroken digits
  | _ => True

theorem wellFormed_of_readText {content cs : List Char} {e : LexicalError}
    (h : (readText content cs).1 = .error e) : e.WellFormed := by
  fun_induction readText content cs with
  | case1 | case3 | case5 =>
    cases h
    trivial
  | case2 content rest ih => exact ih h
  | case4 => cases h
  | case6 content c cs hquote hfeed ih => exact ih h

theorem wellFormed_of_readToken {c : Char} {cs : List Char} {e : LexicalError}
    (h : (readToken c cs).1 = .error e) : e.WellFormed := by
  unfold readToken at h
  split at h
  · cases h
  · split at h
    · split at h
      · cases h
        exact Nat.zero_le 1
      · split at h <;> cases h
        simp [LexicalError.WellFormed]
    · split at h
      · exact wellFormed_of_readText h
      · split at h
        · cases h
        · split at h
          · simp only [numberToken] at h
            split at h <;> cases h
            exact unbroken_digits _
          · cases h
            trivial

variable {source : Source} {line : Line}

/-- An error among the items of a text shows as much as it may. -/
theorem Source.wellFormed_of_error {e : LexicalError} (h : ⟨line, .error e⟩ ∈ source.items) :
    e.WellFormed := by
  obtain ⟨c, hc⟩ := Cursor.exists_next_of_mem h
  have hvalue : c.next.1.value = .error e := by rw [← hc]
  simp only [Cursor.next, Cursor.afterGap] at hvalue
  split at hvalue
  · simp only at hvalue
    split at hvalue <;> cases hvalue
    trivial
  · exact wellFormed_of_readToken hvalue

/-- **No token reaches over the end of a line.** -/
theorem Source.unbroken_of_mem {t : Token} (h : ⟨line, .ok t⟩ ∈ source.items) :
    Unbroken t.lexeme := by
  rcases Source.isRead_of_mem h with rfl | hread
  · decide
  · exact hread.unbroken_lexeme

/-! ### Messages -/

theorem Token.unbroken_description {t : Token} (h : Unbroken t.lexeme) :
    Unbroken t.description := by
  cases t with
  | name x | keyword k | number value digits | mark m => exact h.within (by decide) (by decide)
  | text content =>
    have hclass : Unbroken "string literal " := by decide
    exact hclass.append h
  | endOfInput => decide

/-- The message of the lexer is unbroken, unless a line ends with a colon. -/
theorem LexicalError.WellFormed.unbroken_message_iff {e : LexicalError} (h : e.WellFormed) :
    Unbroken e.message ↔ e ≠ .brokenAssignment "\n" := by
  cases e with
  | unknownCharacter c =>
    have hhead : Unbroken "Unknown token " := by decide
    exact iff_of_true (hhead.append (Text.newline_not_mem_charLiteral c)) nofun
  | brokenAssignment found =>
    by_cases hfound : found = "\n"
    · subst hfound
      exact iff_of_false (by decide) (fun hne => hne rfl)
    · refine iff_of_true ?_ fun heq => hfound (LexicalError.brokenAssignment.inj heq)
      have hunbroken : Unbroken found := by
        intro hmem
        obtain ⟨c, hc⟩ := List.length_eq_one_iff.mp
          (Nat.le_antisymm h (List.length_pos_of_mem hmem))
        rw [hc, List.mem_singleton] at hmem
        rw [← hmem] at hc
        exact hfound (String.toList_inj.mp hc)
      have hcolon : Unbroken ":" := by decide
      exact (hcolon.append hunbroken).quoteWord.within (by decide) (by decide)
  | numberTooLarge digits =>
    have hdigits : Unbroken digits := h
    have hhead : Unbroken ("Invalid number " ++ quoteWord digits ++ ", valid range is ") :=
      hdigits.quoteWord.within (by decide) (by decide)
    exact iff_of_true (hhead.append (unbroken_numberRange 0)) nofun
  | unclosedComment | unclosedText | emptyText => exact iff_of_true (by decide) nofun

theorem SyntaxError.unbroken_message {e : SyntaxError} (hfound : Unbroken e.found.lexeme)
    (hexpected : ∀ t ∈ e.expected?, Unbroken t.lexeme) : Unbroken e.message := by
  have hdescription := Token.unbroken_description hfound
  cases e with
  | unexpected expected found =>
    have hwanted := Token.unbroken_description (hexpected expected rfl)
    have hhead : Unbroken ("Expected " ++ expected.description ++ ", found ") :=
      hwanted.within (by decide) (by decide)
    exact hdescription.within hhead (by decide)
  | noName found | noNumber found | noFactor found =>
    exact hdescription.within (by decide) (by decide)
  | noRelation found | noTextOperand found | notAtEnd found =>
    exact Unbroken.append (by decide) hdescription
  | noOperand statement found =>
    have hgap : Unbroken " takes an identifier or a number, found " := by decide
    exact (statement.unbroken_spelling.quoteWord.append hgap).append hdescription

/-- The name that breaks a rule. -/
def StaticError.name? : StaticError → Option String
  | undefined x | duplicate x | notVariable x | isProcedure x | notProcedure x | notArray x
  | arrayWithoutIndex x | reserved x => some x
  | sizeOfNonVariable | sizeOutOfRange _ | nestedTooDeep => none

theorem StaticError.unbroken_message {e : StaticError} (h : ∀ x ∈ e.name?, Unbroken x) :
    Unbroken e.message := by
  cases e with
  | undefined x | notArray x | arrayWithoutIndex x =>
    exact (h x rfl).quoteWord.within (by decide) (by decide)
  | duplicate x => exact Unbroken.append (by decide) (h x rfl).quoteWord
  | notVariable x | isProcedure x | notProcedure x | reserved x =>
    exact (h x rfl).quoteWord.append (by decide)
  | sizeOutOfRange size =>
    have hhead : Unbroken ("Invalid array size " ++ Text.decimal size ++ ", valid range is ") :=
      (unbroken_decimal size).within (by decide) (by decide)
    exact hhead.append (unbroken_numberRange 1)
  | sizeOfNonVariable | nestedTooDeep => decide

/-! ### Rules that are broken -/

section

variable {scope : Scope} {x : String} {e : StaticError}

theorem name_of_declareName {kind : Kind} {depth : Nat}
    (h : declareName scope x kind depth = .error e) : e.name? = some x := by
  simp only [declareName, Scope.declare_eq] at h
  split at h
  · cases h
    rfl
  · split at h <;> cases h
    rfl

theorem name_of_resolve {use : Use} (h : scope.resolve x use = .error e) : e.name? = some x := by
  simp only [Scope.resolve] at h
  repeat' split at h
  all_goals cases h <;> rfl

theorem name_of_arraySize (h : scope.arraySize x = .error e) : e.name? = some x := by
  simp only [Scope.arraySize] at h
  repeat' split at h
  all_goals cases h <;> rfl

theorem name_of_checkPlain (h : scope.checkPlain x = .error e) : e.name? = some x := by
  simp only [Scope.checkPlain] at h
  split at h <;> cases h
  rfl

theorem name_of_recordSize {size : Int} (h : scope.recordSize size = .error e) :
    e.name? = none := by
  simp only [Scope.recordSize_eq] at h
  repeat' split at h
  all_goals cases h <;> rfl

/-- What breaks a rule in a slot is the token that is to fill it: a name, or the number of elements
of an array. -/
theorem breach_of_fill {slot : Slot} {depth : Nat} {t : Token}
    (h : slot.fill depth scope t = .error (.static e)) :
    (∃ x, e.name? = some x ∧ t = .name x) ∨
      ∃ value digits, slot = .arrayBound ∧ t = .number value digits ∧
        scope.recordSize value = .error e := by
  cases Slot.refuses_of_static h with
  | declared hdeclare => exact .inl ⟨_, name_of_declareName hdeclare, rfl⟩
  | arrayBound digits hsize => exact .inr ⟨_, digits, rfl, rfl, hsize⟩
  | unresolved _ hresolve => exact .inl ⟨_, name_of_resolve hresolve, rfl⟩
  | array _ hplain => exact .inl ⟨_, name_of_checkPlain hplain, rfl⟩
  | noArray hsize => exact .inl ⟨_, name_of_arraySize hsize, rfl⟩

end

variable {g : Goal} {gs goals more : List Goal} {s s' : State} {x : String}

/-- The name that a goal looks up although its token has been taken. -/
def Goal.name? : Goal → Option String
  | expand (.index x) | perform (.checkArray x) | perform (.checkPlain x) => some x
  | _ => none

/-- How the work of a goal can break a rule: a name does, which is that of the token that is looked
at or of the goal; the number of elements of an array does; or a block is entered. -/
inductive Breach (g : Goal) (s : State) : StaticError → Prop
  | name {e : StaticError} {x : String} (name_eq : e.name? = some x)
    (of_token_or_goal : s.lookahead.value = .name x ∨ g.name? = some x) : Breach g s e
  | size {e : StaticError} {value : Int} {digits : String} (goal_eq : g = fill .arrayBound)
    (lookahead_eq : s.lookahead.value = .number value digits)
    (recordSize_eq : s.scope.recordSize value = .error e) : Breach g s e
  | depth (goal_eq : g = perform .enter) : Breach g s .nestedTooDeep

/-- **A step that breaks a rule** fills a slot, enters a block or checks a name, and fails on the
line of the token that is looked at. -/
theorem step_static {e : StaticError} (h : step g s = .error ⟨line, .static e⟩ s') :
    line = s.lookahead.line ∧
      ((∃ slot, g = fill slot ∧
          slot.fill s.depth s.scope s.lookahead.value = .error (.static e)) ∨
        (g = perform .enter ∧ e = .nestedTooDeep) ∨
        (∃ x, g = perform (.checkArray x) ∧ s.scope.arraySize x = .error e) ∨
        ∃ x, g = perform (.checkPlain x) ∧ s.scope.checkPlain x = .error e) := by
  obtain ⟨-, hline, hfails⟩ := fails_of_step h nofun
  refine ⟨hline, ?_⟩
  cases hfails with
  | slot hg hfill => exact .inl ⟨_, hg, hfill⟩
  | tooDeep hg => exact .inr (.inl ⟨hg, rfl⟩)
  | noArray hg hsize => exact .inr (.inr (.inl ⟨_, hg, hsize⟩))
  | array hg hcheck => exact .inr (.inr (.inr ⟨_, hg, hcheck⟩))

theorem breach_of_step {e : StaticError} (h : step g s = .error ⟨line, .static e⟩ s') :
    Breach g s e := by
  obtain ⟨-, ⟨slot, rfl, hfill⟩ | ⟨rfl, rfl⟩ | ⟨x, rfl, hsize⟩ | ⟨x, rfl, hplain⟩⟩ := step_static h
  · rcases breach_of_fill hfill with ⟨x, hx, htoken⟩ | ⟨value, digits, rfl, htoken, hsize⟩
    · exact .name hx (.inl htoken)
    · exact .size rfl htoken hsize
  · exact .depth rfl
  · exact .name (name_of_arraySize hsize) (.inr rfl)
  · exact .name (name_of_checkPlain hplain) (.inr rfl)

/-- The names of goals come from the token that is looked at, or from the goal before. -/
theorem name_of_expansion {n : Nonterminal} {t : Token} (h : n.expansion t = .ok more) :
    ∀ g ∈ more, ∀ x ∈ g.name?, t = .name x ∨ (expand n).name? = some x := by
  have hnone (hall : ∀ g ∈ more, g.name? = none) :
      ∀ g ∈ more, ∀ x ∈ g.name?, t = .name x ∨ (expand n).name? = some x := by
    intro g hg x hx
    rw [hall g hg] at hx
    cases hx
  cases n with
  | block b =>
    cases h
    exact hnone (by cases b <;> decide)
  | term =>
    cases h
    exact hnone (by decide)
  | statement =>
    cases h
    cases t with
    | name y => simp [Nonterminal.statementGoals, Goal.name?]
    | keyword k => exact hnone (by cases k <;> decide)
    | _ => exact hnone (by simp [Nonterminal.statementGoals])
  | factor | index =>
    simp only [Nonterminal.expansion] at h
    split at h <;> cases h <;> simp [Goal.name?]
  | _ =>
    simp only [Nonterminal.expansion] at h
    split at h <;> cases h <;> exact hnone (by decide)

/-- **The names that goals look up later are words.** -/
theorem Visited.isWord_of_names (h : Visited source.items goals s) :
    ∀ g ∈ goals, ∀ x ∈ g.name?, IsWord x := by
  induction h with
  | start => simp [programGoals, Goal.name?]
  | @next g gs more s s' visited step_eq ih =>
    obtain ⟨hfirst, hrest⟩ := List.forall_mem_cons.mp ih
    refine List.forall_mem_append.mpr ⟨?_, hrest⟩
    cases g with
    | fill slot =>
      obtain ⟨rfl, -⟩ := step_fill step_eq
      exact List.forall_mem_nil _
    | perform a =>
      obtain ⟨rfl, -⟩ := step_perform step_eq
      exact List.forall_mem_nil _
    | expand n =>
      obtain ⟨hexpansion, -⟩ := step_expand step_eq
      intro g hg x hx
      rcases name_of_expansion hexpansion g hg x hx with htoken | hname
      · have hwell := visited.wellFormed_lookahead
        rw [htoken] at hwell
        exact hwell.1
      · exact hfirst x hname

/-! ### Failures -/

/-- The token that the grammar asks for is a fixed one. -/
theorem expected_of_step {e : SyntaxError} (h : step g s = .error ⟨line, .grammar e⟩ s') :
    ∀ u ∈ e.expected?, ∃ f : Fixed, u = f.token := by
  obtain ⟨-, -, hfails⟩ := fails_of_step h nofun
  cases hfails with
  | expansion _ herr => exact (isAbout_of_expansion herr).2
  | slot _ hfill => exact (Slot.isAbout_of_fill hfill).2
  | notAtEnd => exact nofun

theorem Fixed.unbroken_lexeme (f : Fixed) : Unbroken f.token.lexeme := by
  cases f with
  | word k => exact k.unbroken_spelling
  | mark m => exact m.unbroken_spelling

/-- The token that is looked at is unbroken. -/
theorem Visited.unbroken_lookahead (h : Visited source.items goals s) :
    Unbroken s.lookahead.value.lexeme :=
  h.forall_lookahead (fun _ _ hmem => Source.unbroken_of_mem hmem) (by decide)

/-- A token that is refused is refused with an unbroken message. -/
theorem Visited.unbroken_of_refusal {f : Located Failure} (h : Visited source.items (g :: gs) s)
    (hstep : step g s = .error f s') (hf : f.value.IsRefusal) : Unbroken f.value.message := by
  obtain ⟨line, value⟩ := f
  rcases hf with ⟨e, rfl⟩ | ⟨e, rfl⟩
  · refine SyntaxError.unbroken_message ?_ fun u hu => ?_
    · have hfound := (step_grammar hstep).2.1
      have hlexeme := h.unbroken_lookahead
      rwa [hfound] at hlexeme
    · obtain ⟨f, rfl⟩ := expected_of_step hstep u hu
      exact f.unbroken_lexeme
  · refine StaticError.unbroken_message fun x hx => ?_
    cases breach_of_step hstep with
    | name name_eq of_token_or_goal =>
      obtain rfl := Option.some.inj (name_eq.symm.trans hx)
      rcases of_token_or_goal with htoken | hname
      · have hlexeme := h.unbroken_lookahead
        rwa [htoken] at hlexeme
      · exact (h.isWord_of_names g List.mem_cons_self _ hname).unbroken
    | size goal_eq lookahead_eq recordSize_eq =>
      rw [name_of_recordSize recordSize_eq] at hx
      cases hx
    | depth => cases hx

/-- **The message of a failure is unbroken**, unless it is that of a line that ends with a colon. -/
theorem unbroken_message_iff {f : Located Failure}
    (h : ((compile source).deliver .unlimited).failure? = some f ∨
      ((listTokens source).deliver .unlimited).failure? = some f) :
    Unbroken f.value.message ↔ f.value ≠ .lexical (.brokenAssignment "\n") := by
  have hlexical {line : Line} {e : LexicalError} (hmem : ⟨line, .error e⟩ ∈ source.items) :
      Unbroken (Failure.lexical e).message ↔
        Failure.lexical e ≠ .lexical (.brokenAssignment "\n") := by
    rw [ne_eq, Failure.lexical.injEq]
    exact (Source.wellFormed_of_error hmem).unbroken_message_iff
  rcases h with hcompile | hlist
  · obtain ⟨t, hrun⟩ := Source.failure_eq_some_iff.mp hcompile
    obtain ⟨g, gs, s, hvisited, hstep⟩ := exists_step_of_failure hrun
    cases hvisited.stopped hstep with
    | unreadable hasRead value_eq =>
      obtain ⟨before, hitems, -⟩ := hasRead
      rw [value_eq]
      exact hlexical (hitems ▸ List.mem_append_right before List.mem_cons_self)
    | refused follows line_eq isRefusal =>
      refine iff_of_true (hvisited.unbroken_of_refusal hstep isRefusal) ?_
      rcases isRefusal with ⟨e, he⟩ | ⟨e, he⟩ <;> rw [he] <;> exact nofun
  · obtain ⟨e, before, hvalue, hitems⟩ := listing_failure_iff.mp hlist
    rw [hvalue]
    exact hlexical (hitems ▸ List.mem_append_right before List.mem_cons_self)

/-! ### Reports -/

/-- **A report is one line, unless a line of the program ends with a colon**, whether the program is
compiled or its tokens are listed. Only the failure at such a colon is reported otherwise, since its
message shows the line feed as it is. -/
theorem isLine_report_iff (source : Source) (hname : '\n' ∉ source.name.toList)
    (f : Located Failure) (h : ((compile source).deliver .unlimited).failure? = some f ∨
      ((listTokens source).deliver .unlimited).failure? = some f) :
    IsLine (Failure.report source.name f) ↔ f.value ≠ .lexical (.brokenAssignment "\n") :=
  (isLine_reportLine_iff f.value.unbroken_kind hname).trans (unbroken_message_iff h)

/-- A colon at the end of a line. -/
theorem not_isLine_report_colon :
    let source : Source := ⟨"colon.pl0", ":\n"⟩
    let f : Located Failure := ⟨.first, .lexical (.brokenAssignment "\n")⟩
    '\n' ∉ source.name.toList ∧ ((compile source).deliver .unlimited).failure? = some f ∧
      ((listTokens source).deliver .unlimited).failure? = some f ∧
      Failure.report source.name f =
        "pl0c: lexical error: colon.pl0:1: Unknown token `:\n`, expected `:=`\n" ∧
      ¬ IsLine (Failure.report source.name f) := by
  let source : Source := ⟨"colon.pl0", ":\n"⟩
  let f : Located Failure := ⟨.first, .lexical (.brokenAssignment "\n")⟩
  have hname : '\n' ∉ source.name.toList := by decide
  have hcompile : ((compile source).deliver .unlimited).failure? = some f := by decide +kernel
  have hlist : ((listTokens source).deliver .unlimited).failure? = some f := by decide +kernel
  have hreport := isLine_report_iff source hname f (.inl hcompile)
  exact ⟨hname, hcompile, hlist, by decide +kernel, fun hline => hreport.mp hline rfl⟩

end PlZero
