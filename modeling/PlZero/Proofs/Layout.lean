import PlZero.Proofs.Fetching

/-!
# Layout does not matter

Compiling a text asks the lexer for a number of items (`Source.pulled`), the last of which is the
one where it stops. Another text whose lexer gives items with the same values so far is compiled in
the same way (`same_output_of_same_items`): the lines on which the items stand, the gaps between
them and all that stands behind them make no difference to what is written, and only the line of a
failure tells the texts apart.
-/

namespace PlZero

open Goal

variable {a b : Source}

/-! ### Two texts -/

/-- The items of a text do not come to an end among the first items of another one. -/
theorem Source.length_le_of_pulls {n : Nat} (hn : n ≤ a.items.length)
    (h : ((Lexer.start b.text).pulls n).map Located.value =
      ((Lexer.start a.text).pulls n).map Located.value) : n ≤ b.items.length := by
  by_contra hlt
  have hle : b.items.length ≤ n := Nat.le_of_not_le hlt
  obtain ⟨tokens, last, ha, -, htokens⟩ := a.items_eq_concat
  obtain ⟨before, last', hb, hlast', -⟩ := b.items_eq_concat
  have hshort : b.items.length ≤ tokens.length := by
    rw [ha, List.length_append, List.length_singleton] at hn
    omega
  -- The last item of the shorter text has the value of an item that is not the last one.
  have hvalues : b.items.map Located.value = (tokens.take b.items.length).map Located.value := by
    have htake := congrArg (List.take b.items.length) h
    rw [← List.map_take, ← List.map_take, Lexer.take_pulls _ hle, Lexer.take_pulls _ hle,
      b.pulls_eq_take (Nat.le_refl _), List.take_length, a.pulls_eq_take (hle.trans hn), ha,
      List.take_append_of_le_length hshort] at htake
    exact htake
  have hmem : last'.value ∈ (tokens.take b.items.length).map Located.value := by
    rw [← hvalues, hb]
    simp
  obtain ⟨i, hi, hvalue⟩ := List.mem_map.mp hmem
  have hnot := htokens i (List.mem_of_mem_take hi)
  rw [Cursor.isLast, hvalue, ← Cursor.isLast, hlast'] at hnot
  cases hnot

/-- A failure in front of the first token is all that is read. -/
theorem compileItems_unreadable (line : Line) (e : LexicalError) (rest : List Item) :
    compileItems (⟨line, .error e⟩ :: rest) = .error ⟨line, .lexical e⟩
      { (State.start rest).write .preamble with fetched := 1 } := by
  simp only [compileItems, programGoals, run_cons, step, Action.perform, Outcome.leavesNone,
    State.emit_eq_write, State.fetch, State.write, State.start, List.nil_append]

/-- **Where the items that are asked for have the same values, compiling does the same**, and leaves
the same ahead. -/
theorem compileItems_alike {asked : List Item} {rest : List (Except LexicalError Token)}
    (ha : a.items = asked ++ (compileItems a.items).state.ahead)
    (hb : b.items.map Located.value = asked.map Located.value ++ rest) :
    (compileItems a.items).Alike (compileItems b.items) ∧
      (compileItems b.items).state.ahead.map Located.value = rest := by
  rcases a.items_eq_cons with ⟨line, e, as, hcons⟩ | ⟨line, t, as, hcons, hbounded⟩
  · rw [hcons, compileItems_unreadable] at ha ⊢
    obtain rfl : [⟨line, .error e⟩] = asked := List.append_cancel_right ha
    obtain ⟨⟨line', value⟩, bs, hcons', rfl, rfl⟩ := List.map_eq_cons_iff.mp hb
    rw [hcons', compileItems_unreadable]
    exact ⟨⟨rfl, rfl, rfl, rfl, rfl⟩, rfl⟩
  · rw [hcons, Tree.compileItems_cons] at ha ⊢
    have hgoals : perform .fetch ∉
        [expand (.block .program), mark .dot, perform .checkAtEnd, write .trailer] := by simp
    obtain ⟨pulled, hpulled, hsame⟩ := run_alike hbounded hgoals
    obtain rfl : ⟨line, .ok t⟩ :: pulled = asked :=
      List.append_cancel_right ((congrArg (⟨line, .ok t⟩ :: ·) hpulled).symm.trans ha)
    obtain ⟨⟨line', value⟩, bs, hcons', rfl, hrest⟩ := List.map_eq_cons_iff.mp hb
    rw [hcons', Tree.compileItems_cons]
    exact hsame (Tree.afterFirst ⟨line', t⟩ bs) rest ⟨rfl, rfl, rfl, rfl⟩ hrest

/-- What has been written is all that counts for the output. -/
theorem Outcome.Alike.text_account {o o' : Outcome Unit} (h : o.Alike o') :
    o.account.text = o'.account.text := by
  have htext (o : Outcome Unit) :
      o.account.text = String.join (o.state.fragments.map Fragment.text) := by
    cases o <;> simp [Outcome.account, Account.text, State.fragments, Outcome.state,
      Function.comp_def]
  have hfragments : o.state.fragments = o'.state.fragments := by
    cases o <;> cases o'
    · exact h.2.fragments_eq
    · exact h.elim
    · exact h.elim
    · exact h.2.fragments_eq
  rw [htext, htext, hfragments]

/-- **The layout of a text makes no difference, nor does what stands behind the place where
compiling stops.** Let the lexer of another text give items with the same values as those that
compiling a text asks for. Then compiling the other text asks for as many items and writes the same
bytes; both texts are accepted, or both are refused because of the same failure, each on the line of
the item that has been asked for last. -/
theorem same_output_of_same_items (a b : Source)
    (h : ((Lexer.start b.text).pulls a.pulled).map Located.value =
      ((Lexer.start a.text).pulls a.pulled).map Located.value) :
    ((compile b).deliver .unlimited).bytes = ((compile a).deliver .unlimited).bytes ∧
      b.pulled = a.pulled ∧
      ((((compile a).deliver .unlimited).failure? = none ∧
          ((compile b).deliver .unlimited).failure? = none) ∨
        ∃ f g : Located Failure, ((compile a).deliver .unlimited).failure? = some f ∧
          ((compile b).deliver .unlimited).failure? = some g ∧ g.value = f.value ∧
          a.lastPulled?.map Located.line = some f.line ∧
          b.lastPulled?.map Located.line = some g.line) := by
  have hle := Source.length_le_of_pulls a.pulled_le h
  have hvalues : b.items.map Located.value =
      ((Lexer.start a.text).pulls a.pulled).map Located.value ++
        (b.items.drop a.pulled).map Located.value := by
    rw [← h, b.pulls_eq_take hle, ← List.map_append, List.take_append_drop]
  obtain ⟨halike, hahead⟩ := compileItems_alike a.pulls_append_ahead.symm hvalues
  have hpulled : b.pulled = a.pulled := by
    have hlength := b.length_items
    have hrest := congrArg List.length hahead
    simp only [List.length_map, List.length_drop] at hrest
    omega
  rw [(deliver_unlimited _).1, (deliver_unlimited _).1, (deliver_unlimited _).2,
    (deliver_unlimited _).2]
  refine ⟨by rw [compile, compile, halike.text_account], hpulled, ?_⟩
  cases ho : compileItems a.items with
  | ok u s =>
    rw [ho] at halike
    cases ho' : compileItems b.items with
    | ok u' s' => exact .inl ⟨by rw [compile, ho]; rfl, by rw [compile, ho']; rfl⟩
    | error g s' => rw [ho'] at halike; exact halike.elim
  | error f s =>
    rw [ho] at halike
    cases ho' : compileItems b.items with
    | ok u' s' => rw [ho'] at halike; exact halike.elim
    | error g s' =>
      rw [ho'] at halike
      exact .inr ⟨f, g, by rw [compile, ho]; rfl, by rw [compile, ho']; rfl, halike.1.symm,
        line_of_failure ho, line_of_failure ho'⟩

/-- An undefined name on the first line and one on the third, behind which a text is not closed. -/
theorem same_output_of_same_items_undefined :
    let a : Source := ⟨"layout.pl0", "var x; y := 1."⟩
    let b : Source := ⟨"layout.pl0", "var\x7b\x7dx\n;\n\ty 'open"⟩
    ((Lexer.start b.text).pulls a.pulled).map Located.value =
        ((Lexer.start a.text).pulls a.pulled).map Located.value ∧
      ((compile b).deliver .unlimited).bytes = ((compile a).deliver .unlimited).bytes ∧
      ∃ f g : Located Failure, ((compile a).deliver .unlimited).failure? = some f ∧
        ((compile b).deliver .unlimited).failure? = some g ∧ g.value = f.value ∧
        f.line = 1 ∧ g.line = 3 := by
  let a : Source := ⟨"layout.pl0", "var x; y := 1."⟩
  let b : Source := ⟨"layout.pl0", "var\x7b\x7dx\n;\n\ty 'open"⟩
  have hsame : ((Lexer.start b.text).pulls a.pulled).map Located.value =
      ((Lexer.start a.text).pulls a.pulled).map Located.value := by decide +kernel
  have hrefused : ((compile a).deliver .unlimited).failure? ≠ none := by decide +kernel
  obtain ⟨hbytes, -, ⟨haccepted, -⟩ | ⟨f, g, hf, hg, hvalue, hline, hline'⟩⟩ :=
    same_output_of_same_items a b hsame
  · exact absurd haccepted hrefused
  · have hone : a.lastPulled?.map Located.line = some 1 := by decide +kernel
    have hthree : b.lastPulled?.map Located.line = some 3 := by decide +kernel
    exact ⟨hsame, hbytes, f, g, hf, hg, hvalue, Option.some.inj (hline.symm.trans hone),
      Option.some.inj (hline'.symm.trans hthree)⟩

end PlZero
