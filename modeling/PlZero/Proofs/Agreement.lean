import PlZero.Listing
import PlZero.Proofs.Fetching

/-!
# Compiling and listing agree

Listing the tokens of a text reads all its items, compiling it reads as many as it needs. Both stop
at a failure of the lexer, which is the last item (`listing_failure_iff`,
`lexical_failure_of_compileItems`). So a text that is accepted has a listing, a failure of the lexer
that stops the compiler stops the listing as well, and one that stops the listing can be missed by
the compiler only where it has refused a token before it (`compile_agrees_with_listing`).
-/

namespace PlZero

variable {source : Source} {f : Located Failure} {s : State}

/-! ### The two ways to stop -/

/-- Listing fails where the last item is a failure of the lexer, and there only. -/
theorem listing_failure_iff :
    ((listTokens source).deliver .unlimited).failure? = some f ↔
      ∃ e before, f.value = .lexical e ∧ source.items = before ++ [⟨f.line, .error e⟩] := by
  obtain ⟨before, ⟨line, value⟩, hitems, hlast, -⟩ := source.items_eq_concat
  rw [(deliver_unlimited _).1, listTokens, Account.failure?, hitems]
  cases value with
  | ok t => simp [Listing.ending]
  | error e =>
    obtain ⟨line', value'⟩ := f
    simp only [Listing.ending, List.getLast?_concat, Option.some.injEq, Located.mk.injEq]
    constructor
    · rintro ⟨rfl, rfl⟩
      exact ⟨e, before, rfl, rfl⟩
    · rintro ⟨e', before', rfl, hsplit⟩
      obtain ⟨-, hsame⟩ := List.append_inj' hsplit rfl
      obtain ⟨rfl, rfl⟩ : line = line' ∧ e = e' := by simpa using hsame
      exact ⟨rfl, rfl⟩

/-- The lexer fails with the last item. -/
theorem Source.eq_concat_of_hasRead {line : Line} {e : LexicalError}
    (h : s.HasRead source.items ⟨line, .error e⟩) :
    ∃ before, source.items = before ++ [⟨line, .error e⟩] := by
  obtain ⟨before, hitems, -⟩ := h
  have hnil := Source.eq_nil_of_isLast hitems rfl
  rw [hnil] at hitems
  exact ⟨before, hitems⟩

/-- A failure of the lexer that stops the compiler is the last item. -/
theorem lexical_failure_of_compileItems {e : LexicalError}
    (h : compileItems source.items = .error f s) (he : f.value = .lexical e) :
    ∃ before, source.items = before ++ [⟨f.line, .error e⟩] := by
  cases stopped_of_compileItems h with
  | unreadable hasRead value_eq =>
    obtain rfl : e = _ := Failure.lexical.inj (he.symm.trans value_eq)
    exact Source.eq_concat_of_hasRead hasRead
  | refused follows line_eq isRefusal =>
    rcases isRefusal with ⟨r, hr⟩ | ⟨r, hr⟩ <;> cases he.symm.trans hr

/-- In front of the failure of the lexer that it has not read, a run stops at a token. -/
theorem exists_refused {before : List Item} {line : Line} {e : LexicalError}
    (hitems : source.items = before ++ [⟨line, .error e⟩])
    (hfollows : s.Follows source.items) :
    ∃ taken between, source.items =
      taken ++ s.lookahead.map .ok :: (between ++ [⟨line, .error e⟩]) := by
  obtain ⟨taken, htaken, -⟩ := hfollows
  rcases s.ahead.eq_nil_or_concat with hnil | ⟨between, last, hconcat⟩
  · rw [hnil, hitems] at htaken
    obtain ⟨-, hsame⟩ := List.append_inj' htaken rfl
    cases (List.cons.inj hsame).1
  · rw [hconcat, hitems] at htaken
    have hassoc : before ++ [⟨line, .error e⟩] =
        (taken ++ s.lookahead.map .ok :: between) ++ [last] := by simpa using htaken
    obtain ⟨-, hlast⟩ := List.append_inj' hassoc rfl
    obtain rfl := (List.cons.inj hlast).1
    exact ⟨taken, between, hitems.trans (by simpa using htaken)⟩

/-- A run does not finish on a text that the lexer fails on. -/
theorem ne_finished_of_unreadable {before : List Item} {line : Line} {e : LexicalError}
    (hitems : source.items = before ++ [⟨line, .error e⟩]) :
    compileItems source.items ≠ .ok () s := by
  intro hs
  obtain ⟨taken, between, htaken⟩ := exists_refused hitems (follows_of_compileItems hs)
  have hnil := Source.eq_nil_of_isLast htaken (by simp [Cursor.isLast, lookahead_of_finished hs])
  simp at hnil

/-! ### Agreement -/

/-- A text that is compiled to its end can be listed. -/
theorem listing_of_finished (h : compileItems source.items = .ok () s) :
    ((listTokens source).deliver .unlimited).failure? = none := by
  refine Option.eq_none_iff_forall_ne_some.mpr fun f hf => ?_
  obtain ⟨e, before, -, hitems⟩ := listing_failure_iff.mp hf
  exact ne_finished_of_unreadable hitems h

/-- Where listing fails, the compiler has come to the same failure, or it has refused a token in
front of it. -/
theorem compile_of_unreadable {before : List Item} {line : Line} {e : LexicalError}
    (hitems : source.items = before ++ [⟨line, .error e⟩]) :
    ∃ f s, compileItems source.items = .error f s ∧
      (f = ⟨line, .lexical e⟩ ∨
        f.value.IsRefusal ∧ f.line = s.lookahead.line ∧ ∃ taken between, source.items =
          taken ++ s.lookahead.map .ok :: (between ++ [⟨line, .error e⟩])) := by
  cases hrun : compileItems source.items with
  | ok u s => exact absurd hrun (ne_finished_of_unreadable hitems)
  | error f s =>
    refine ⟨f, s, rfl, ?_⟩
    cases stopped_of_compileItems hrun with
    | unreadable hasRead value_eq =>
      obtain ⟨before', hitems'⟩ := Source.eq_concat_of_hasRead hasRead
      obtain ⟨-, hsame⟩ := List.append_inj' (hitems.symm.trans hitems') rfl
      obtain ⟨line', value⟩ := f
      obtain ⟨rfl, rfl⟩ : line = line' ∧ e = _ := by simpa using hsame
      exact .inl (congrArg (Located.mk line) value_eq)
    | refused follows line_eq isRefusal =>
      exact .inr ⟨isRefusal, line_eq, exists_refused hitems follows⟩

/-- **Compiling and listing agree on the failures of the lexer.** Compiling asks for the items that
the lexer gives one by one, each once and none behind the last. If it finishes, it has asked for all
of them, and the text can be listed; if a failure of the lexer stops it, the same failure stops the
listing; and if a failure of the lexer stops the listing, the compiler stops there as well, or has
refused a token in front of it. -/
theorem compile_agrees_with_listing (source : Source) :
    ((Lexer.start source.text).Gives source.items ∧
      (∀ goals s, Visited source.items goals s → source.Feeds s) ∧
      source.Feeds (compileItems source.items).state) ∧
    (((compile source).deliver .unlimited).failure? = none →
      ((listTokens source).deliver .unlimited).failure? = none ∧
        source.pulled = source.items.length) ∧
    (∀ line e, ((compile source).deliver .unlimited).failure? = some ⟨line, .lexical e⟩ →
      ((listTokens source).deliver .unlimited).failure? = some ⟨line, .lexical e⟩) ∧
    ∀ line e, ((listTokens source).deliver .unlimited).failure? = some ⟨line, .lexical e⟩ →
      ∃ f s, compileItems source.items = .error f s ∧
        ((compile source).deliver .unlimited).failure? = some f ∧
        (f = ⟨line, .lexical e⟩ ∨
          f.value.IsRefusal ∧ f.line = s.lookahead.line ∧ ∃ taken between, source.items =
            taken ++ s.lookahead.map .ok :: (between ++ [⟨line, .error e⟩])) := by
  refine ⟨⟨Lexer.gives_iff.mpr rfl, fun _ _ h => h.feeds, source.pulls_append_ahead⟩,
    fun haccepted => ?_, fun line e h => ?_, fun line e h => ?_⟩
  · obtain ⟨s, hs⟩ := Source.accepted_iff_finished.mp haccepted
    refine ⟨listing_of_finished hs, ?_⟩
    rw [source.length_items, hs, Outcome.state, ahead_of_finished hs]
    rfl
  · obtain ⟨s, hs⟩ := Source.failure_eq_some_iff.mp h
    obtain ⟨before, hitems⟩ := lexical_failure_of_compileItems hs rfl
    exact listing_failure_iff.mpr ⟨e, before, rfl, hitems⟩
  · obtain ⟨e', before, he, hitems⟩ := listing_failure_iff.mp h
    obtain rfl : e = e' := Failure.lexical.inj he
    obtain ⟨f, s, hs, hcases⟩ := compile_of_unreadable hitems
    exact ⟨f, s, hs, Source.failure_eq_some_iff.mpr ⟨s, hs⟩, hcases⟩

/-- A text that is not closed stops the listing, but the name in front of it stops the compiler. -/
theorem compile_agrees_with_listing_undefined :
    let source : Source := ⟨"late.pl0", "x := 'open"⟩
    ((listTokens source).deliver .unlimited).failure? =
        some ⟨.first, .lexical .unclosedText⟩ ∧
      ∃ f s, compileItems source.items = .error f s ∧ f.value.IsRefusal ∧
        ∃ taken between, source.items =
          taken ++ s.lookahead.map .ok :: (between ++ [⟨.first, .error .unclosedText⟩]) := by
  let source : Source := ⟨"late.pl0", "x := 'open"⟩
  have hlisting : ((listTokens source).deliver .unlimited).failure? =
      some ⟨.first, .lexical .unclosedText⟩ := by decide +kernel
  have hother : ((compile source).deliver .unlimited).failure? ≠
      some ⟨.first, .lexical .unclosedText⟩ := by decide +kernel
  obtain ⟨-, -, -, hmissed⟩ := compile_agrees_with_listing source
  obtain ⟨f, s, hs, hf, rfl | ⟨hrefusal, -, hitems⟩⟩ := hmissed _ _ hlisting
  · exact absurd hf hother
  · exact ⟨hlisting, f, s, hs, hrefusal, hitems⟩

end PlZero
