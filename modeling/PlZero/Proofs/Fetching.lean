import PlZero.Proofs.C.Sites
import PlZero.Proofs.Lookahead

/-!
# What a run has fetched

A run fetches the items of its text from the left and each of them once: in every state that it
comes by, the items up to a certain one have been fetched and the others are ahead
(`State.HasRead`). As long as the run goes on, that one is the token that is looked at
(`Visited.fetching`). Where the run stops, the failure is either that one itself, or it is blamed on
the token that is looked at (`Stopped`).

A lexer that is read on as often gives the same items (`Lexer.pulls_eq_take`), so the run never asks
for anything behind the end of the input or behind a failure (`Visited.feeds`,
`Source.pulls_append_ahead`).
-/

namespace PlZero

open Goal

variable {items is : List Item} {i j : Item} {g : Goal} {gs goals more : List Goal} {s s' : State}
  {f : Located Failure}

/-! ### Reading on -/

/-- What a lexer gives that is read on so many times, whether or not its items have come to an end.
-/
def Lexer.pulls : Lexer → Nat → List Item
  | _, 0 => []
  | l, n + 1 => l.next.1 :: l.next.2.pulls n

theorem Lexer.length_pulls (l : Lexer) (n : Nat) : (l.pulls n).length = n := by
  induction n generalizing l with
  | zero => rfl
  | succ n ih => simp [pulls, ih]

theorem Lexer.take_pulls (l : Lexer) {m n : Nat} (h : m ≤ n) : (l.pulls n).take m = l.pulls m := by
  induction m generalizing l n with
  | zero => simp [pulls]
  | succ m ih =>
    obtain ⟨n, rfl⟩ := Nat.exists_eq_succ_of_ne_zero
      (Nat.ne_of_gt (Nat.lt_of_lt_of_le m.succ_pos h))
    simp [pulls, ih l.next.2 (Nat.le_of_succ_le_succ h)]

/-- Up to the last item, the lexer gives the items of the text. -/
theorem Lexer.pulls_eq_take {c : Cursor} {finished : Bool} {n : Nat} (h : n ≤ c.items.length) :
    (⟨c, finished⟩ : Lexer).pulls n = c.items.take n := by
  induction n generalizing c with
  | zero => rfl
  | succ n ih =>
    rw [Cursor.items_eq] at h ⊢
    change c.next.1 :: (⟨c.next.2, finished⟩ : Lexer).pulls n = _
    split at h
    · next hlast =>
      obtain rfl : n = 0 := by simpa using h
      rw [if_pos hlast]
      rfl
    · next hlast => rw [if_neg hlast, List.take_succ_cons, ih (by simpa using h)]

/-! ### The item fetched last -/

/-- The items up to `i` have been fetched, each once, and the others are ahead. -/
def State.HasRead (s : State) (items : List Item) (i : Item) : Prop :=
  ∃ before, items = before ++ i :: s.ahead ∧ s.fetched = before.length + 1

/-- What is ahead and how much has been fetched is all that matters. -/
theorem State.HasRead.congr (h : s.HasRead items i) (hahead : s'.ahead = s.ahead)
    (hfetched : s'.fetched = s.fetched) : s'.HasRead items i := by
  obtain ⟨before, hitems, hlength⟩ := h
  exact ⟨before, by rw [hahead, hitems], by rw [hfetched, hlength]⟩

/-- Fetching goes on by one item. -/
theorem State.HasRead.fetch (h : s.HasRead items i) (hahead : s.ahead = j :: is) :
    s.fetch.state.HasRead items j := by
  obtain ⟨before, hitems, hlength⟩ := h
  refine ⟨before ++ [i], ?_, ?_⟩
  · rw [State.ahead_fetch hahead, hitems, hahead, List.append_assoc]
    rfl
  · rw [State.fetched_fetch, hlength, List.length_append]
    rfl

/-- The token that is fetched is the one that is looked at. -/
theorem State.lookahead_of_fetch {u : Unit} (h : s.fetch = .ok u s') (hahead : s.ahead = j :: is) :
    j = s'.lookahead.map .ok := by
  obtain ⟨line, value⟩ := j
  cases value with
  | error e =>
    rw [State.fetch, hahead] at h
    cases h
  | ok t =>
    rw [State.fetch, hahead] at h
    cases h
    rfl

/-! ### Single steps -/

/-- An action that does not fetch leaves alone what is read. -/
theorem State.HasRead.perform (h : s.HasRead items i) {a : Action} (ha : a ≠ .fetch) :
    (a.perform s).state.HasRead items i := by
  refine h.congr (ahead_perform ha) ?_
  cases a with
  | fetch => exact absurd rfl ha
  | write f => rfl
  | closeScope => rfl
  | _ =>
    simp only [Action.perform]
    split <;> rfl

theorem lookahead_of_perform {a : Action} {u : Unit} (ha : a ≠ .fetch)
    (h : a.perform s = .ok u s') : s'.lookahead = s.lookahead := by
  cases a with
  | fetch => exact absurd rfl ha
  | write f | closeScope =>
    cases h
    rfl
  | _ =>
    simp only [Action.perform] at h
    split at h <;> cases h
    rfl

/-- The state looks at the item fetched last. -/
def State.Follows (s : State) (items : List Item) : Prop :=
  s.HasRead items (s.lookahead.map .ok)

/-- **Each step looks at the item fetched last**, if the one before it has. -/
theorem State.Follows.step (h : s.Follows items) (hs : s.Bounded) (hg : g ≠ perform .fetch)
    (hstep : step g s = .ok more s') : s'.Follows items := by
  cases g with
  | expand n =>
    obtain ⟨-, rfl⟩ := step_expand hstep
    exact h
  | perform a =>
    have ha : a ≠ .fetch := by simpa using hg
    obtain ⟨-, hperform⟩ := step_perform hstep
    have hread : s'.HasRead items (s.lookahead.map .ok) := by
      have := State.HasRead.perform h ha
      rwa [hperform] at this
    rwa [State.Follows, lookahead_of_perform ha hperform]
  | fill slot =>
    rw [step_fill_eq] at hstep
    split at hstep
    · next scope f hfill =>
      obtain ⟨j, is, hahead⟩ := exists_ahead_of_fill hs hfill
      have hwritten : (State.write? { s with scope := scope } f).ahead = j :: is := by
        rw [State.ahead_write?, hahead]
      cases hfetch : State.fetch (State.write? { s with scope := scope } f) with
      | error e t => rw [hfetch] at hstep; cases hstep
      | ok u t =>
        rw [hfetch] at hstep
        cases hstep
        have hread : (State.write? { s with scope := scope } f).HasRead items
            (s.lookahead.map .ok) :=
          State.HasRead.congr h (State.ahead_write? _ f) (by cases f <;> rfl)
        have hread' := hread.fetch hwritten
        rw [hfetch] at hread'
        rw [State.Follows, ← State.lookahead_of_fetch hfetch hwritten]
        exact hread'
    · cases hstep

/-! ### Failures -/

/-- A token is refused by the grammar or by the rules about names. -/
def Failure.IsRefusal (f : Failure) : Prop :=
  (∃ e, f = .grammar e) ∨ ∃ e, f = .static e

/-- Where a run stops: at an item that is no token, or at a token that is looked at and refused. -/
inductive Stopped (items : List Item) (f : Located Failure) (s : State) : Prop
  | unreadable {e : LexicalError} (hasRead : s.HasRead items ⟨f.line, .error e⟩)
      (value_eq : f.value = .lexical e)
  | refused (follows : s.Follows items) (line_eq : f.line = s.lookahead.line)
      (isRefusal : f.value.IsRefusal)

/-- The item fetched last, where a run stops, is on the line of the failure. -/
theorem Stopped.exists_hasRead (h : Stopped items f s) :
    ∃ i, s.HasRead items i ∧ i.line = f.line := by
  cases h with
  | unreadable hasRead value_eq => exact ⟨_, hasRead, rfl⟩
  | refused follows line_eq isRefusal => exact ⟨_, follows, line_eq.symm⟩

theorem Stopped.fail {a : Failure} (h : s.Follows items) (ha : a.IsRefusal) :
    Stopped items ⟨s.lookahead.line, a⟩ s :=
  .refused h rfl ha

/-- A slot refuses a token by the grammar or by the rules about names. -/
theorem isRefusal_of_fill {slot : Slot} {depth : Nat} {scope : Scope} {t : Token} {e : Failure}
    (h : slot.fill depth scope t = .error e) : e.IsRefusal := by
  obtain ⟨err, rfl, -⟩ | ⟨err, rfl, -⟩ := Slot.refuses_of_fill h
  · exact .inl ⟨err, rfl⟩
  · exact .inr ⟨err, rfl⟩

/-- A block is closed only where one is open. -/
theorem Visited.depth_ne_zero (h : Visited items (perform .leave :: gs) s) : s.depth ≠ 0 := by
  obtain ⟨p, q, hp, hq, -⟩ := h.exists_leadOn
  cases p with
  | closed b =>
    cases b with
    | program => exact ne_of_eq_of_ne hp (by decide)
    | procedure => exact ne_of_eq_of_ne hp.1 (by decide)
  | _ => cases hq

/-- **Where a step fails, the run stops at the item fetched last.** -/
theorem State.Follows.stopped (h : s.Follows items) (hvisited : Visited items (g :: gs) s)
    (hstep : PlZero.step g s = .error f s') : Stopped items f s' := by
  obtain ⟨r, hahead, hfetched, hfetch⟩ | ⟨rfl, hline, hfails⟩ := step_error hstep
  · obtain ⟨e, is, hcons, hvalue⟩ := State.failure_of_fetch hfetch
    have hread : r.HasRead items (s.lookahead.map .ok) := State.HasRead.congr h hahead hfetched
    have hread' := hread.fetch hcons
    rw [hfetch] at hread'
    exact .unreadable hread' hvalue
  · refine .refused h hline ?_
    generalize f.value = err at hfails
    cases hfails with
    | expansion | notAtEnd => exact .inl ⟨_, rfl⟩
    | slot _ hfill => exact isRefusal_of_fill hfill
    | tooDeep | noArray | array => exact .inr ⟨_, rfl⟩
    | noBlock hg hdepth =>
      subst hg
      exact absurd hdepth hvisited.depth_ne_zero

/-! ### Runs -/

/-- The items of a text come to an end with the last of them, and with no other. -/
theorem Source.items_eq_concat (source : Source) :
    ∃ before last, source.items = before ++ [last] ∧ Cursor.isLast last = true ∧
      ∀ i ∈ before, Cursor.isLast i = false := by
  obtain ⟨tokens, last, hitems, hlast, hall⟩ := Cursor.items_eq_append (.start source.text)
  refine ⟨_, last, hitems, hlast, fun i hi => ?_⟩
  obtain ⟨⟨line, t⟩, ht, rfl⟩ := List.mem_map.mp hi
  have hend : t ≠ .endOfInput := (hall _ ht).2
  cases t <;> simp_all [Cursor.isLast, Located.map]

/-- How far reading has got where a run comes by: it has not begun, or the state looks at the item
fetched last. -/
inductive Fetching (items : List Item) : List Goal → State → Prop
  | blank : Fetching items programGoals (.start items)
  | ready : Fetching items programGoals.tail ((State.start items).write .preamble)
  | begun {goals : List Goal} {s : State} (follows : s.Follows items) (bounded : s.Bounded)
      (fetch_not_mem : perform .fetch ∉ goals) : Fetching items goals s

/-- The first token is looked at. -/
theorem fetching_first {source : Source} {more : List Goal}
    (hstep : step (perform .fetch) ((State.start source.items).write .preamble) = .ok more s) :
    Fetching source.items (more ++ programGoals.tail.tail) s := by
  rcases source.items_eq_cons with ⟨line, e, rest, hcons⟩ | ⟨line, t, rest, hcons, hbounded⟩
  · rw [hcons] at hstep
    cases hstep
  · rw [hcons] at hstep ⊢
    cases hstep
    exact .begun ⟨[], rfl, rfl⟩ hbounded (by simp [programGoals])

/-- **Where a run comes by, the items up to the one that it looks at have been fetched.** -/
theorem Visited.fetching {source : Source} (h : Visited source.items goals s) :
    Fetching source.items goals s := by
  induction h with
  | start => exact .blank
  | @next g gs more s s' visited step_eq ih =>
    generalize hgoals : g :: gs = goals at ih
    cases ih with
    | blank =>
      obtain ⟨rfl, rfl⟩ := List.cons.inj hgoals
      cases step_eq
      exact .ready
    | ready =>
      obtain ⟨rfl, rfl⟩ := List.cons.inj hgoals
      exact fetching_first step_eq
    | begun follows bounded fetch_not_mem =>
      subst hgoals
      have hg : g ≠ perform .fetch := fun hfetch => fetch_not_mem (hfetch ▸ List.mem_cons_self)
      exact .begun (follows.step bounded hg step_eq) (bounded.step hg step_eq)
        (fetch_not_mem_of_step fetch_not_mem step_eq)

/-- A step of a run that fails stops it at the item fetched last. -/
theorem Visited.stopped {source : Source} (h : Visited source.items (g :: gs) s)
    (hstep : step g s = .error f s') : Stopped source.items f s' := by
  have hfetching := h.fetching
  generalize hgoals : g :: gs = goals at hfetching
  cases hfetching with
  | blank =>
    obtain ⟨rfl, rfl⟩ := List.cons.inj hgoals
    cases hstep
  | ready =>
    obtain ⟨rfl, rfl⟩ := List.cons.inj hgoals
    rcases source.items_eq_cons with ⟨line, e, rest, hcons⟩ | ⟨line, t, rest, hcons, hbounded⟩
    · rw [hcons] at hstep ⊢
      cases hstep
      exact .unreadable ⟨[], rfl, rfl⟩ rfl
    · rw [hcons] at hstep
      cases hstep
  | begun follows =>
    subst hgoals
    exact follows.stopped h hstep

/-- A run ends where it comes by with no goals left, or a step that it comes by fails. -/
theorem Visited.ends (h : Visited items goals s) :
    (∃ t, run goals s = .ok () t ∧ Visited items [] t) ∨
      ∃ g gs t f t', run goals s = .error f t' ∧ Visited items (g :: gs) t ∧
        step g t = .error f t' := by
  induction goals, s using run_induction with
  | nil s => exact .inl ⟨s, run_nil s, h⟩
  | stop g gs s f s' hstep => exact .inr ⟨g, gs, s, f, s', by rw [run_cons, hstep], h, hstep⟩
  | next g gs s more s' hstep ih =>
    rw [run_cons, hstep]
    exact ih (h.next hstep)

/-- The ends of a whole run. -/
theorem compileItems_ends (items : List Item) :
    (∃ t, compileItems items = .ok () t ∧ Visited items [] t) ∨
      ∃ g gs t f t', compileItems items = .error f t' ∧ Visited items (g :: gs) t ∧
        step g t = .error f t' :=
  Visited.start.ends

/-- A run that finishes comes by its end, with no goals left. -/
theorem visited_of_finished (h : compileItems items = .ok () s) : Visited items [] s := by
  rcases compileItems_ends items with ⟨t, hrun, hvisited⟩ | ⟨g, gs, t, f', t', hrun, -, -⟩
  · cases h.symm.trans hrun
    exact hvisited
  · cases h.symm.trans hrun

/-- A run that fails comes by the step that fails. -/
theorem exists_step_of_failure (h : compileItems items = .error f s) :
    ∃ g gs t, Visited items (g :: gs) t ∧ step g t = .error f s := by
  rcases compileItems_ends items with ⟨t, hrun, -⟩ | ⟨g, gs, t, f', t', hrun, hvisited, hstep⟩
  · cases h.symm.trans hrun
  · cases h.symm.trans hrun
    exact ⟨g, gs, t, hvisited, hstep⟩

/-- **A run that fails stops at the item fetched last.** -/
theorem stopped_of_compileItems {source : Source} (h : compileItems source.items = .error f s) :
    Stopped source.items f s := by
  obtain ⟨g, gs, t, hvisited, hstep⟩ := exists_step_of_failure h
  exact hvisited.stopped hstep

/-- A run that finishes looks at the item fetched last. -/
theorem follows_of_compileItems {source : Source} (h : compileItems source.items = .ok () s) :
    s.Follows source.items := by
  have hfetching := (visited_of_finished h).fetching
  generalize hgoals : ([] : List Goal) = goals at hfetching
  cases hfetching with
  | blank => cases hgoals
  | ready => cases hgoals
  | begun follows bounded fetch_not_mem => exact follows

/-! ### The lexer of a run -/

/-- The items that have been asked for in a state are what the lexer gives, and with those ahead
they are all items of the text. -/
def Source.Feeds (source : Source) (s : State) : Prop :=
  (Lexer.start source.text).pulls s.fetched ++ s.ahead = source.items

theorem Source.pulls_eq_take (source : Source) {n : Nat} (h : n ≤ source.items.length) :
    (Lexer.start source.text).pulls n = source.items.take n := Lexer.pulls_eq_take h

/-- Read on once more than there are items before `i`, the lexer gives these and `i`. -/
theorem Source.pulls_of_cons {source : Source} {before after : List Item}
    (h : source.items = before ++ i :: after) :
    (Lexer.start source.text).pulls (before.length + 1) = before ++ [i] := by
  have hlength : before.length + 1 = (before ++ [i]).length := by simp
  rw [source.pulls_eq_take (by simp [h]), h, List.append_cons, hlength, List.take_left]

theorem State.HasRead.feeds {source : Source} (h : s.HasRead source.items i) :
    source.Feeds s := by
  obtain ⟨before, hitems, hlength⟩ := h
  rw [Source.Feeds, hlength, Source.pulls_of_cons hitems, hitems, ← List.append_cons]

/-- **In every state that a run comes by, the lexer has been read on item by item.** -/
theorem Visited.feeds {source : Source} (h : Visited source.items goals s) : source.Feeds s := by
  cases h.fetching with
  | blank => rfl
  | ready => rfl
  | begun follows bounded fetch_not_mem => exact State.HasRead.feeds follows

/-- How many items compiling a text asks for. -/
def Source.pulled (source : Source) : Nat := (compileItems source.items).state.fetched

/-- The item that compiling a text asks for last. -/
def Source.lastPulled? (source : Source) : Option Item :=
  ((Lexer.start source.text).pulls source.pulled).getLast?

/-- Where a run ends, an item has been fetched last. -/
theorem exists_hasRead_compileItems (source : Source) :
    ∃ i, (compileItems source.items).state.HasRead source.items i := by
  cases h : compileItems source.items with
  | ok u s => exact ⟨_, follows_of_compileItems h⟩
  | error f s =>
    obtain ⟨i, hread, -⟩ := (stopped_of_compileItems h).exists_hasRead
    exact ⟨i, hread⟩

/-- The items that have been asked for and those that are left ahead are all items. -/
theorem Source.pulls_append_ahead (source : Source) :
    (Lexer.start source.text).pulls source.pulled ++ (compileItems source.items).state.ahead =
      source.items := by
  obtain ⟨i, hread⟩ := exists_hasRead_compileItems source
  exact hread.feeds

theorem Source.length_items (source : Source) :
    source.items.length = source.pulled + (compileItems source.items).state.ahead.length := by
  rw [← congrArg List.length source.pulls_append_ahead, List.length_append, Lexer.length_pulls]

/-- No item is asked for behind the last one. -/
theorem Source.pulled_le (source : Source) : source.pulled ≤ source.items.length :=
  source.length_items ▸ Nat.le_add_right _ _

/-- A failure stands on the line of the item that is asked for last. -/
theorem line_of_failure {source : Source} (h : compileItems source.items = .error f s) :
    source.lastPulled?.map Located.line = some f.line := by
  obtain ⟨i, ⟨before, hitems, hlength⟩, hline⟩ := (stopped_of_compileItems h).exists_hasRead
  have hpulled : source.pulled = before.length + 1 := by
    rw [Source.pulled, h]
    exact hlength
  rw [Source.lastPulled?, hpulled, Source.pulls_of_cons hitems, List.getLast?_concat,
    Option.map_some, hline]

/-! ### The last item -/

/-- An item with which the items come to an end is the last one. -/
theorem Source.eq_nil_of_isLast {source : Source} {before after : List Item}
    (h : source.items = before ++ i :: after) (hi : Cursor.isLast i = true) : after = [] := by
  obtain ⟨others, last, hitems, -, hothers⟩ := source.items_eq_concat
  have hnot : i ∉ others := fun hmem => by
    rw [hothers i hmem] at hi
    cases hi
  exact (eq_nil_of_append_cons (h.symm.trans hitems) hnot).2.2

/-- A run that finishes looks at the end of the input. -/
theorem lookahead_of_finished (h : compileItems items = .ok () s) :
    s.lookahead.value = .endOfInput := by
  have happend := run_append (programGoals.take 4) (programGoals.drop 4) (.start items)
  rw [List.take_append_drop] at happend
  rw [compileItems, happend] at h
  split at h
  · next u t _ =>
    have hend : t.lookahead.value = .endOfInput := lookahead_of_checkAtEnd h
    rw [show programGoals.drop 4 = [perform .checkAtEnd, write .trailer] from rfl] at h
    simp only [run_cons, run_nil, step, Action.perform, State.emit_eq_write, hend, if_true,
      Outcome.leavesNone, List.nil_append] at h
    cases h
    exact hend
  · cases h

/-- **A run that finishes has asked for all items.** -/
theorem ahead_of_finished {source : Source} (h : compileItems source.items = .ok () s) :
    s.ahead = [] := by
  obtain ⟨before, hitems, -⟩ := follows_of_compileItems h
  refine Source.eq_nil_of_isLast hitems ?_
  simp [Cursor.isLast, lookahead_of_finished h]

end PlZero
