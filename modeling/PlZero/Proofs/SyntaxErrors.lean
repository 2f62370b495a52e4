import PlZero.Proofs.Lookahead
import PlZero.Proofs.Slots
import PlZero.Proofs.Translation

/-!
# Where syntax errors arise

A syntax error names the token that is looked at (`step_grammar`). The tokens in front of it can be
completed to a sentence, since the goals that are left stand for some tokens (`exists_derives`), and
with these the tokens that have been taken are what the goals at the beginning stand for
(`completable_of_run`). But no sentence goes on with the token that is named: compiling such a
sentence would fail in the same way, since a run does not look beyond that token (`run_alike`).

So the compiler stops at the first token at which a text can be told to be no sentence
(`syntaxError_first`), although most nonterminals accept any token and leave it to another goal to
refuse it.
-/

namespace PlZero

open Goal

variable {slot : Slot} {depth : Nat} {scope : Scope} {t : Token} {g : Goal} {gs more : List Goal}
  {s s' : State} {line : Line} {e : SyntaxError}

/-! ### The token that is named -/

theorem isAbout_of_expansion {n : Nonterminal} (h : n.expansion t = .error e) : e.IsAbout t := by
  cases n with
  | block | statement | term => cases h
  | factor =>
    simp only [Nonterminal.expansion] at h
    split at h <;> cases h
    exact SyntaxError.isAbout_found rfl
  | _ =>
    simp only [Nonterminal.expansion] at h
    split at h <;> cases h

/-- A token that an operand may be is refused by no rule of the grammar. -/
theorem fill_operand_ne_grammar (ht : Slot.operand.Admits t) :
    Slot.operand.fill depth scope t ≠ .error (.grammar e) := by
  intro h
  rcases ht with ⟨x, rfl⟩ | ⟨n, rfl⟩
  · obtain ⟨_, -, herr⟩ | ⟨r, -, hr⟩ := orStatic_bind_eq_error_iff.mp h
    · cases herr
    · cases hr
  · cases h

/-- An operand is asked for where the next token is one. -/
theorem operand_of_expansion {n : Nonterminal} (h : n.expansion t = .ok more)
    (hmore : more.head? = some (fill .operand)) : Slot.operand.Admits t := by
  cases n with
  | block b => cases b <;> cases h <;> cases hmore
  | statement =>
    cases h
    unfold Nonterminal.statementGoals at hmore
    split at hmore <;> cases hmore
  | term => cases h; cases hmore
  | factor =>
    simp only [Nonterminal.expansion] at h
    split at h
    · exact .inl ⟨_, rfl⟩
    · exact .inr ⟨⟨_, _⟩, rfl⟩
    · cases h
      cases hmore
    · cases h
  | _ =>
    simp only [Nonterminal.expansion] at h
    split at h <;> cases h <;> cases hmore

/-- **A syntax error names the token that is looked at**, and its line. -/
theorem step_grammar (h : step g s = .error ⟨line, .grammar e⟩ s') :
    s' = s ∧ s.lookahead = ⟨line, e.found⟩ ∧
      (g = fill .operand → ¬ Slot.operand.Admits s.lookahead.value) := by
  obtain ⟨rfl, rfl, hfails⟩ := fails_of_step h nofun
  have hlocated {found : Token} (hfound : found = s'.lookahead.value) :
      s'.lookahead = ⟨s'.lookahead.line, found⟩ := by rw [hfound]
  cases hfails with
  | expansion hg herr =>
    exact ⟨rfl, hlocated (isAbout_of_expansion herr).1, by rintro rfl; cases hg⟩
  | slot hg hfill =>
    refine ⟨rfl, hlocated (Slot.isAbout_of_fill hfill).1, ?_⟩
    rintro rfl hadmits
    cases hg
    exact fill_operand_ne_grammar hadmits hfill
  | notAtEnd hg => exact ⟨rfl, hlocated rfl, by rintro rfl; cases hg⟩

/-! ### Completing a text -/

/-- Every slot admits some token of a text. -/
theorem Slot.exists_admits (slot : Slot) : ∃ t, slot.Admits t ∧ t.WellFormed := by
  have hname : (Token.name "x").WellFormed := ⟨⟨'x', [], rfl, by decide, by simp⟩, by decide⟩
  have hnumber : (Token.number 1 "1").WellFormed := ⟨by decide, by decide⟩
  cases slot with
  | skipped expected | written expected =>
    refine ⟨expected.token, rfl, ?_⟩
    cases expected <;> trivial
  | declared | target | callee | stored => exact ⟨.name "x", ⟨"x", rfl⟩, hname⟩
  | constantValue | arrayBound => exact ⟨.number 1 "1", ⟨⟨1, "1"⟩, rfl⟩, hnumber⟩
  | operand | printed | printedText => exact ⟨.name "x", .inl ⟨"x", rfl⟩, hname⟩
  | relation => exact ⟨.mark .equals, ⟨.equal, rfl⟩, trivial⟩

/-- Every nonterminal stands for some tokens of a text. -/
theorem Nonterminal.exists_yields (n : Nonterminal) :
    ∃ ts, n.Yields ts ∧ ∀ t ∈ ts, t.WellFormed := by
  let number : Tree.Factor := .number ⟨1, "1"⟩
  let term : Tree.Term := .mk number .done
  let expression : Tree.Expression := .mk none term .done
  have hnumber : (Token.number 1 "1").WellFormed := ⟨by decide, by decide⟩
  cases n with
  | block => exact ⟨[], ⟨.mk [] [] .done .empty, rfl⟩, by simp⟩
  | constantList => exact ⟨[], ⟨[], rfl⟩, by simp⟩
  | moreConstants => exact ⟨[.mark .semicolon], ⟨[], rfl⟩, by simp [Token.WellFormed]⟩
  | variableList => exact ⟨[], ⟨[], rfl⟩, by simp⟩
  | variableSize => exact ⟨[], ⟨none, rfl⟩, by simp⟩
  | moreVariables => exact ⟨[.mark .semicolon], ⟨[], rfl⟩, by simp [Token.WellFormed]⟩
  | procedureList => exact ⟨[], ⟨.done, rfl⟩, by simp⟩
  | statement => exact ⟨[], ⟨.empty, rfl⟩, by simp⟩
  | moreStatements => exact ⟨[.keyword .end_], ⟨.done, rfl⟩, by simp [Token.WellFormed]⟩
  | optionalInto => exact ⟨[], ⟨false, rfl⟩, by simp⟩
  | condition =>
    exact ⟨[.keyword .odd, .number 1 "1"], ⟨.odd expression, rfl⟩,
      List.forall_mem_cons.mpr ⟨trivial, List.forall_mem_singleton.mpr hnumber⟩⟩
  | expression => exact ⟨[.number 1 "1"], ⟨expression, rfl⟩, List.forall_mem_singleton.mpr hnumber⟩
  | moreTerms => exact ⟨[], ⟨.done, rfl⟩, by simp⟩
  | term => exact ⟨[.number 1 "1"], ⟨term, rfl⟩, List.forall_mem_singleton.mpr hnumber⟩
  | moreFactors => exact ⟨[], ⟨.done, rfl⟩, by simp⟩
  | factor => exact ⟨[.number 1 "1"], ⟨number, rfl⟩, List.forall_mem_singleton.mpr hnumber⟩
  | index x => exact ⟨[], .inl rfl, by simp⟩

/-- Goals stand for some tokens of a text. -/
theorem exists_derives (goals : List Goal) :
    ∃ ts, Derives goals ts ∧ ∀ t ∈ ts, t.WellFormed := by
  induction goals with
  | nil => exact ⟨[], rfl, by simp⟩
  | cons g gs ih =>
    obtain ⟨ts, hts, hall⟩ := ih
    cases g with
    | expand n =>
      obtain ⟨us, hus, hall'⟩ := n.exists_yields
      exact ⟨us ++ ts, ⟨us, ts, hus, hts, rfl⟩, List.forall_mem_append.mpr ⟨hall', hall⟩⟩
    | fill slot =>
      obtain ⟨t, ht, hwell⟩ := slot.exists_admits
      exact ⟨t :: ts, derives_fill.mpr ⟨t, ts, ht, hts, rfl⟩,
        List.forall_mem_cons.mpr ⟨hwell, hall⟩⟩
    | perform a => exact ⟨ts, derives_perform.mpr hts, hall⟩

/-- **The tokens in front of a syntax error can be completed**: with some more tokens they are what
the goals stand for. -/
theorem completable_of_run {goals : List Goal} (hs : s.Bounded) (hgoals : perform .fetch ∉ goals)
    (h : run goals s = .error ⟨line, .grammar e⟩ s') :
    s'.lookahead = ⟨line, e.found⟩ ∧ ∃ ts rest, s.upcoming = ts.map .ok ++ s'.upcoming ∧
      Derives goals (ts ++ rest) ∧ (∀ t ∈ rest, t.WellFormed) ∧
        (goals.head? = some (fill .operand) → Slot.operand.Admits s.lookahead.value → ts ≠ []) := by
  induction goals, s using run_induction with
  | nil s =>
    rw [run_nil] at h
    cases h
  | stop g gs s f t hstep =>
    rw [run_cons, hstep] at h
    obtain ⟨rfl, rfl⟩ : f = ⟨line, .grammar e⟩ ∧ t = s' := by simpa using h
    obtain ⟨rfl, hlookahead, hoperand⟩ := step_grammar hstep
    obtain ⟨rest, hrest, hall⟩ := exists_derives (g :: gs)
    refine ⟨hlookahead, [], rest, rfl, hrest, hall, fun hhead hadmits => ?_⟩
    exact absurd hadmits (hoperand (by simpa using hhead))
  | next g gs s more t hstep ih =>
    have hg : g ≠ perform .fetch := fun hfetch => hgoals (hfetch ▸ List.mem_cons_self)
    rw [run_cons, hstep] at h
    obtain ⟨hlookahead, ts, rest, hup, hrest, hall, hhead⟩ :=
      ih (hs.step hg hstep) (fetch_not_mem_of_step hgoals hstep) h
    -- A slot for an operand stands for the token that has decided about it, which is taken.
    have hfirst : more.head? = some (fill .operand) →
        ∀ u us, ts ++ rest = u :: us → u = t.lookahead.value := by
      intro hmore u us hts
      have hadmits : Slot.operand.Admits t.lookahead.value := by
        cases g with
        | expand n =>
          obtain ⟨hn, rfl⟩ := step_expand hstep
          exact operand_of_expansion hn hmore
        | fill slot => simp [(step_fill hstep).1] at hmore
        | perform a => simp [(step_perform hstep).1] at hmore
      cases ts with
      | nil => exact absurd rfl (hhead (by simp [hmore]) hadmits)
      | cons v vs =>
        obtain ⟨rfl, -⟩ := List.cons.inj hts
        exact (State.lookahead_of_upcoming hup).symm
    obtain ⟨us, hus, hup', hfill⟩ := derives_of_step hs hg hstep hrest hfirst
    refine ⟨hlookahead, us ++ ts, rest, by simp [hup', hup], by simpa using hus, hall, ?_⟩
    rintro hslot -
    have hne := hfill .operand (by simpa using hslot)
    simp [hne]

/-! ### Sentences -/

/-- No text that is a sentence has a syntax error. -/
theorem ne_grammar_of_sentence (p : Tree.Program) {items : List Item}
    (h : items.map Located.value = p.tokens.map .ok ++ [.ok .endOfInput]) :
    compileItems items ≠ .error ⟨line, .grammar e⟩ s := by
  intro herror
  have hrun := Tree.run_program p h
  cases hresult : Tree.applyAll .initial p.operations with
  | error err =>
    rw [hresult] at hrun
    obtain ⟨f, t, hrun, hf⟩ := hrun
    rw [herror] at hrun
    cases hrun
    cases hf
  | ok scope =>
    rw [hresult] at hrun
    obtain ⟨t, hrun, -⟩ := hrun
    rw [herror] at hrun
    cases hrun

/-- **No sentence goes on with the token that a syntax error names**: compiled, it would have the
same error. -/
theorem ne_sentence_of_error {ts : List Token} {rest : List Item}
    (hbounded : (Tree.afterFirst ⟨line, t⟩ rest).Bounded)
    (herror : compileItems (⟨line, .ok t⟩ :: rest) = .error ⟨s.lookahead.line, .grammar e⟩ s)
    (hup : (Tree.afterFirst ⟨line, t⟩ rest).upcoming = ts.map .ok ++ s.upcoming)
    (p : Tree.Program) (us : List Token) :
    p.tokens ++ [.endOfInput] ≠ ts ++ s.lookahead.value :: us := by
  intro hp
  rw [Tree.compileItems_cons] at herror
  have hgoals : perform .fetch ∉
      [expand (.block .program), mark .dot, perform .checkAtEnd, write .trailer] := by simp
  obtain ⟨pulled, hpulled, hsame⟩ := run_alike hbounded hgoals
  rw [herror] at hpulled hsame
  -- The items that the run has fetched, with others behind them.
  let other : List Item := pulled ++ us.map fun u => ⟨.first, .ok u⟩
  have hother : other.map Located.value = pulled.map Located.value ++ us.map .ok := by
    simp [other, Function.comp_def]
  have hfetched : Except.ok t :: pulled.map Located.value =
      ts.map .ok ++ [Except.ok s.lookahead.value] := by
    have hall : (Except.ok t :: pulled.map Located.value) ++ s.ahead.map Located.value =
        (ts.map .ok ++ [Except.ok s.lookahead.value]) ++ s.ahead.map Located.value := by
      have hahead : rest = pulled ++ s.ahead := hpulled
      simpa [State.upcoming, Tree.afterFirst, hahead] using hup
    exact List.append_cancel_right hall
  have hvalues : ((⟨line, .ok t⟩ : Item) :: other).map Located.value =
      p.tokens.map .ok ++ [.ok .endOfInput] := by
    have hmap := congrArg (List.map (Except.ok : Token → Except LexicalError Token)) hp
    rw [List.map_append, List.map_append] at hmap
    rw [List.map_cons, hother, ← List.cons_append, hfetched, List.append_assoc]
    exact hmap.symm
  obtain ⟨halike, -⟩ := hsame (Tree.afterFirst ⟨line, t⟩ other) (us.map .ok)
    ⟨rfl, rfl, rfl, rfl⟩ hother
  cases hrun : run [expand (.block .program), mark .dot, perform .checkAtEnd, write .trailer]
      (Tree.afterFirst ⟨line, t⟩ other) with
  | ok u r =>
    rw [hrun] at halike
    exact halike
  | error f r =>
    rw [hrun] at halike
    obtain ⟨line', value⟩ := f
    obtain rfl : Failure.grammar e = value := halike.1
    exact ne_grammar_of_sentence p hvalues ((Tree.compileItems_cons ..).trans hrun)

/-- **A syntax error is found at the first token that shows it.** It names the token that is looked
at; the tokens in front of it are the beginning of a sentence, but no sentence goes on with the
named token, or ends there if it is the end of the input. A text that is a sentence has no such
error. -/
theorem syntaxError_first (source : Source) :
    (∀ line e, ((compile source).deliver .unlimited).failure? = some ⟨line, .grammar e⟩ →
      ∃ s ts rest, compileItems source.items = .error ⟨line, .grammar e⟩ s ∧
        s.lookahead = ⟨line, e.found⟩ ∧
        source.items.map Located.value = ts.map .ok ++ s.upcoming ∧
        (∀ t ∈ rest, t.WellFormed) ∧ (∃ p : Tree.Program, p.tokens = ts ++ rest) ∧
        (∀ (p : Tree.Program) us, p.tokens ≠ ts ++ e.found :: us) ∧
        (e.found = .endOfInput → ∀ p : Tree.Program, p.tokens ≠ ts)) ∧
    ∀ p : Tree.Program, source.Reads p.tokens → ∀ line e,
      ((compile source).deliver .unlimited).failure? ≠ some ⟨line, .grammar e⟩ := by
  refine ⟨fun line e h => ?_, fun p hp line e h => ?_⟩
  · obtain ⟨s, hs⟩ := Source.failure_eq_some_iff.mp h
    rcases source.items_eq_cons with ⟨l, err, rest, hcons⟩ | ⟨l, t, rest, hcons, hbounded⟩
    · -- If even the first token is malformed, the error is a lexical one.
      obtain ⟨s', herror⟩ := compileItems_error l err rest
      rw [hcons, herror] at hs
      cases hs
    · have hrun := hs
      rw [hcons, Tree.compileItems_cons] at hrun
      obtain ⟨hlookahead, ts, more, hup, hderives, hall, -⟩ :=
        completable_of_run hbounded (by simp) hrun
      have hvalues : source.items.map Located.value = ts.map .ok ++ s.upcoming := by
        rw [← hup, hcons]
        rfl
      have hnone := ne_sentence_of_error hbounded (s := s) (by rw [← hcons, hs, hlookahead]) hup
      rw [hlookahead] at hnone
      have hsentence : Derives [expand (.block .program), mark .dot] (ts ++ more) := by
        simpa using hderives
      obtain ⟨p, hp⟩ := derives_program hsentence
      refine ⟨s, ts, more, hs, hlookahead, hvalues, hall, ⟨p, hp.symm⟩, fun p us hp => ?_,
        fun hend p hp => ?_⟩
      · exact hnone p (us ++ [.endOfInput]) (by simp [hp])
      · exact hnone p [] (by simp [hp, hend])
  · obtain ⟨s, hs⟩ := Source.failure_eq_some_iff.mp h
    exact ne_grammar_of_sentence p (Source.reads_iff.mp hp) hs

/-- An equals sign in an assignment, which nothing in front of it rules out. -/
theorem syntaxError_first_equals :
    let source : Source := ⟨"assign.pl0", "var x; x = 1."⟩
    let e : SyntaxError := .unexpected (.mark .becomes) (.mark .equals)
    ((compile source).deliver .unlimited).failure? = some ⟨.first, .grammar e⟩ ∧
      ∃ (s : State) (ts rest : List Token),
        source.items.map Located.value = ts.map .ok ++ s.upcoming ∧
        s.lookahead = ⟨.first, .mark .equals⟩ ∧ (∃ p : Tree.Program, p.tokens = ts ++ rest) ∧
        ∀ (p : Tree.Program) us, p.tokens ≠ ts ++ .mark .equals :: us := by
  let source : Source := ⟨"assign.pl0", "var x; x = 1."⟩
  let e : SyntaxError := .unexpected (.mark .becomes) (.mark .equals)
  have hfailure : ((compile source).deliver .unlimited).failure? = some ⟨.first, .grammar e⟩ := by
    decide +kernel
  obtain ⟨s, ts, rest, -, hlookahead, hvalues, -, hsome, hnone, -⟩ :=
    (syntaxError_first source).1 _ _ hfailure
  exact ⟨hfailure, s, ts, rest, hvalues, hlookahead, hsome, hnone⟩

end PlZero
