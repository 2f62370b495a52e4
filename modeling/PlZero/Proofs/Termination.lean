import Mathlib.Logic.Relation
import PlZero.Proofs.CharacterLoop
import PlZero.Proofs.Fetching
import PlZero.Proofs.Limits

/-!
# Termination

Compiling a text comes to an end for two reasons. Each step takes a token, or it takes none back and
brings the next one closer (`wellFounded_stepsTo`). And the text has only so many tokens: none is
taken twice, and the end of the input, which could be read again and again, is never taken.

So where a part of the grammar comes back to itself, by a descent or by another turn of a loop
(`Recurs`), a token has been taken in between (`Recurs.exists_taken`), because without one the goals
would have come closer to the next token than they were. And however much a destination takes, the
lexer is not asked more often than the text has items (`Source.AsksInto.le`); the same is true where
the run itself writes to a sink and stops when it is refused something (`Source.pulledInto_le`).
-/

namespace PlZero

open Goal Nonterminal Relation

variable {source : Source} {dest : Destination} {items : List Item} {g : Goal}
  {gs gs' more goals : List Goal} {s t : State} {n m : Nonterminal} {k : Nat}

/-! ### Steps -/

/-- One step leads from some goals and a state to others. -/
def StepsTo (before after : List Goal × State) : Prop :=
  ∃ g gs more, before.1 = g :: gs ∧ step g before.2 = .ok more after.2 ∧ after.1 = more ++ gs

/-- **Every run comes to its end**: steps follow each other only so often. -/
theorem wellFounded_stepsTo : WellFounded fun after before => StepsTo before after := by
  have hlex := (Prod.lex Nat.lt_wfRel Nat.lt_wfRel).wf
  let measure (x : List Goal × State) : Nat × Nat := (x.2.unread, pending x.1)
  refine Subrelation.wf ?_ (InvImage.wf measure hlex)
  rintro ⟨goals', s'⟩ ⟨goals, s⟩ ⟨g, gs, more, rfl, hstep, rfl⟩
  exact step_decreases hstep

/-- The end of the input is never taken. -/
theorem lookahead_ne_endOfInput {slot : Slot} (h : step (fill slot) s = .ok more t) :
    s.lookahead.value ≠ .endOfInput := by
  obtain ⟨-, f, hfill, -, -⟩ := step_fill h
  intro hend
  rw [hend] at hfill
  exact slot.fill_endOfInput _ _ _ hfill

/-- `t` has taken the tokens `ts` since `s`, none of which is the end of the input. Where these are
none, the goals have come no farther from the next token. -/
structure Advances (gs : List Goal) (s : State) (ts : List Token) (gs' : List Goal) (t : State) :
    Prop where
  upcoming_eq : s.upcoming = ts.map .ok ++ t.upcoming
  endOfInput_not_mem : .endOfInput ∉ ts
  pending_le : ts = [] → pending gs' ≤ pending gs

theorem advances_of_step (gs : List Goal) (hs : s.Bounded) (hg : g ≠ perform .fetch)
    (h : step g s = .ok more t) : ∃ ts, Advances (g :: gs) s ts (more ++ gs) t := by
  cases g with
  | fill slot =>
    obtain ⟨-, u, -, hupcoming⟩ := State.upcoming_of_fill hs h
    have hu : u ≠ .endOfInput :=
      State.lookahead_of_upcoming hupcoming ▸ lookahead_ne_endOfInput h
    exact ⟨[u], hupcoming, by simpa using hu.symm, nofun⟩
  | expand n =>
    obtain ⟨-, rfl⟩ := step_expand h
    have hlt : pending (more ++ gs) < pending (expand n :: gs) := pending_of_step (by simp) h
    exact ⟨[], rfl, nofun, fun _ => hlt.le⟩
  | perform a =>
    obtain ⟨-, hperform⟩ := step_perform h
    have hupcoming := State.upcoming_of_perform (by simpa using hg) hperform
    have hlt : pending (more ++ gs) < pending (perform a :: gs) := pending_of_step (by simp) h
    exact ⟨[], hupcoming.symm, nofun, fun _ => hlt.le⟩

theorem advances_of_steps (hs : s.Bounded) (hgs : perform .fetch ∉ gs)
    (h : ReflTransGen StepsTo (gs, s) (gs', t)) : ∃ ts, Advances gs s ts gs' t := by
  generalize hbefore : (gs, s) = before at h
  induction h using ReflTransGen.head_induction_on generalizing gs s with
  | refl =>
    cases hbefore
    exact ⟨[], rfl, nofun, fun _ => Nat.le_refl _⟩
  | @head _ after first _ ih =>
    subst hbefore
    obtain ⟨g, gs, more, rfl, hstep, hafter⟩ := first
    have hg : g ≠ perform .fetch := fun hfetch => hgs (hfetch ▸ List.mem_cons_self)
    obtain ⟨ts, h₁⟩ := advances_of_step gs hs hg hstep
    obtain ⟨us, h₂⟩ := ih (hs.step hg hstep) (fetch_not_mem_of_step hgs hstep) (by rw [← hafter])
    refine ⟨ts ++ us, ?_, ?_, fun hnil => ?_⟩
    · simp [h₁.upcoming_eq, h₂.upcoming_eq]
    · simpa using ⟨h₁.endOfInput_not_mem, h₂.endOfInput_not_mem⟩
    · obtain ⟨hts, hus⟩ := List.append_eq_nil_iff.mp hnil
      exact (h₂.pending_le hus).trans (h₁.pending_le hts)

/-! ### Descents and loops -/

/-- Two nonterminals are the same part of the grammar, whichever block or name they are for. -/
def Nonterminal.Alike : Nonterminal → Nonterminal → Prop
  | block _, block _ | index _, index _ => True
  | n, m => n = m

theorem Nonterminal.Alike.rank_eq (h : n.Alike m) : n.rank = m.rank := by
  unfold Alike at h
  split at h
  · rfl
  · rfl
  · rw [h]

/-- Compiling the items comes by the state `s`, where the goals lead from a part of the grammar to
`n` and so back to this part: the goals are what a nonterminal stands for that is like `n`, or they
are a turn of the loop over the constants or over the variables, behind which `n` decides whether
there is another one. -/
inductive Recurs (items : List Item) (s : State) : List Goal → Nonterminal → Prop
  | nonterminal {n m : Nonterminal} {goals gs : List Goal}
    (visited : Visited items (expand n :: gs) s)
    (expansion_eq : n.expansion s.lookahead.value = .ok goals) (alike : n.Alike m) :
    Recurs items s goals m
  | constantLoop {gs : List Goal} (visited : Visited items (constantGoals ++ gs) s) :
    Recurs items s constantGoals moreConstants
  | variableLoop {gs : List Goal} (visited : Visited items (variableGoals ++ gs) s) :
    Recurs items s variableGoals moreVariables

theorem Recurs.pending_lt (h : Recurs items s goals n) : pending goals < n.rank := by
  cases h with
  | nonterminal _ hgoals halike => exact halike.rank_eq ▸ pending_expansion_lt hgoals
  | constantLoop | variableLoop => decide

theorem Visited.bounded (h : Visited source.items (g :: gs) s) (hg : ∀ a, g ≠ perform a) :
    s.Bounded ∧ perform .fetch ∉ g :: gs := by
  have hfetching := h.fetching
  generalize hgoals : g :: gs = goals at hfetching
  cases hfetching with
  | blank => exact absurd (List.head_eq_of_cons_eq hgoals) (hg (.write .preamble))
  | ready => exact absurd (List.head_eq_of_cons_eq hgoals) (hg .fetch)
  | begun _ hbounded hfetch => exact ⟨hbounded, hfetch⟩

theorem Recurs.bounded (h : Recurs source.items s goals n) :
    s.Bounded ∧ perform .fetch ∉ goals := by
  cases h with
  | nonterminal hvisited hgoals =>
    exact ⟨(hvisited.bounded (by simp)).1, Nonterminal.fetch_not_mem_of_expansion hgoals⟩
  | constantLoop hvisited =>
    exact ⟨(Visited.bounded hvisited (by simp)).1, by simp [constantGoals]⟩
  | variableLoop hvisited =>
    exact ⟨(Visited.bounded hvisited (by simp)).1, by simp [variableGoals]⟩

/-- **Where a part of the grammar comes back to itself, a token has been taken.** -/
theorem Recurs.exists_taken (h : Recurs source.items s goals n)
    (hsteps : ReflTransGen StepsTo (goals, s) (expand n :: gs, t)) :
    ∃ u ts, s.upcoming = (u :: ts).map .ok ++ t.upcoming ∧ .endOfInput ∉ u :: ts := by
  obtain ⟨hbounded, hfetch⟩ := h.bounded
  obtain ⟨ts, hadvances⟩ := advances_of_steps hbounded hfetch hsteps
  cases ts with
  | cons u ts => exact ⟨u, ts, hadvances.upcoming_eq, hadvances.endOfInput_not_mem⟩
  | nil =>
    -- The goals are closer to the next token than `n`, and no step takes them away from it.
    have hle : n.rank + pending gs ≤ pending goals := hadvances.pending_le rfl
    have hlt := h.pending_lt
    omega

/-! ### How often an item is asked for -/

/-- The pieces that have been written in a state. -/
def State.pieces (s : State) : List (Located String) :=
  s.written.toList.map (Located.map Fragment.text)

/-- The destination takes everything that has been written in the state. -/
def Destination.Takes (dest : Destination) (s : State) : Prop :=
  (s.pieces.foldl (Delivery.receive dest) .empty).failure? = none

/-- So often is an item asked for where compiling the text stops as soon as the destination refuses
a piece: before the first step that writes a refused piece, or in the whole run. -/
inductive Source.AsksInto (source : Source) (dest : Destination) : Nat → Prop
  | refused {g : Goal} {gs : List Goal} {s : State} (visited : Visited source.items (g :: gs) s)
    (takes : dest.Takes s) (not_takes : ¬ dest.Takes (step g s).state) :
    source.AsksInto dest s.fetched
  | finished (takes : dest.Takes (compileItems source.items).state) :
    source.AsksInto dest source.pulled

theorem Visited.exists_asksInto (h : Visited source.items goals s) (hs : dest.Takes s) :
    ∃ k, source.AsksInto dest k := by
  induction goals, s using run_induction with
  | nil s =>
    refine ⟨_, .finished ?_⟩
    rw [← h.run_eq, run_nil]
    exact hs
  | stop g gs s f t hstep =>
    by_cases ht : dest.Takes t
    · refine ⟨_, .finished ?_⟩
      rw [← h.run_eq, run_cons, hstep]
      exact ht
    · exact ⟨_, .refused h hs (by rwa [hstep])⟩
  | next g gs s more t hstep ih =>
    by_cases ht : dest.Takes t
    · exact ih (h.next hstep) ht
    · exact ⟨_, .refused h hs (by rwa [hstep])⟩

/-- **No item is asked for behind the last one**, whatever the destination refuses. -/
theorem Source.AsksInto.le (h : source.AsksInto dest k) : k ≤ source.items.length := by
  cases h with
  | refused hvisited =>
    have hlength := congrArg List.length hvisited.feeds
    rw [List.length_append, Lexer.length_pulls] at hlength
    omega
  | finished => exact source.pulled_le

/-- How often an item is asked for where a text is compiled into a sink. -/
def Source.pulledInto {σ : Type} [Sink σ] (source : Source) (out : σ) : Nat :=
  Outcome.fetched (run programGoals ((State.start source.items).into out))

/-- **No item is asked for behind the last one**, whatever the sink refuses. -/
theorem Source.pulledInto_le {σ : Type} [Sink σ] (source : Source) (out : σ) :
    source.pulledInto out ≤ source.items.length := by
  have hmirrors := mirrors_run programGoals (State.takenBy_start source.items out)
  exact hmirrors.fetched_le.trans source.pulled_le

/-! ### Reading and compiling -/

/-- **Reading and compiling come to an end**, for every text and every destination. Each turn of the
loop that reads an item ends it, or takes a character, or stops in front of a number, whose first
digit the next turn takes; and the loop ends with the next item. There is no run without an end, and
where a part of the grammar comes back to itself, tokens have been taken, which are not the end of
the input. So an item is asked for at most once for each token of the text, and once for what stands
behind them. -/
theorem compiling_terminates (source : Source) (dest : Destination) :
    (∀ s : Scan, (∃ i, s.turn = .inl (i, s.cursor)) ∨ (∃ s', s.Takes s') ∨
      s.phase = .start ∧ ∃ s' s'', s.turn = .inr s' ∧ s'.phase = .number [] ∧
        s'.cursor = s.cursor ∧ s'.Takes s'') ∧
    (∀ c : Cursor, ∃ k, (Scan.ofCursor c).Ends k c.next ∧
      k + c.next.2.rest.length ≤ c.rest.length + 2) ∧
    (WellFounded fun after before => StepsTo before after) ∧
    (∀ goals n s gs t, Recurs source.items s goals n →
      ReflTransGen StepsTo (goals, s) (expand n :: gs, t) →
      ∃ u ts, s.upcoming = (u :: ts).map .ok ++ t.upcoming ∧ .endOfInput ∉ u :: ts) ∧
    ∃ (tokens : List (Located Token)) (last : Item),
      source.items = tokens.map (Located.map .ok) ++ [last] ∧
      Cursor.isLast last = true ∧ (∀ t ∈ tokens, t.value ≠ .endOfInput) ∧
      (∃ k, source.AsksInto dest k) ∧ (∀ k, source.AsksInto dest k → k ≤ tokens.length + 1) ∧
      ∀ (σ : Type) [Sink σ] (out : σ), source.pulledInto out ≤ tokens.length + 1 := by
  refine ⟨Scan.turn_cases, Scan.ends_ofCursor, wellFounded_stepsTo,
    fun _ _ _ _ _ h hsteps => h.exists_taken hsteps, ?_⟩
  obtain ⟨tokens, last, hitems, hlast, htokens⟩ := Cursor.items_eq_append (.start source.text)
  have hlength : source.items.length = tokens.length + 1 := by
    rw [Source.items, hitems, List.length_append, List.length_map]
    rfl
  exact ⟨tokens, last, hitems, hlast, fun t ht => (htokens t ht).2,
    Visited.start.exists_asksInto rfl, fun _ hk => hlength ▸ hk.le,
    fun _ _ out => hlength ▸ source.pulledInto_le out⟩

/-- Behind a `begin`, a statement comes back to a statement. -/
theorem compiling_terminates_begin :
    let source : Source := ⟨"a.pl0", "begin"⟩
    ∃ goals s gs t, Recurs source.items s goals statement ∧
      ReflTransGen StepsTo (goals, s) (expand statement :: gs, t) ∧
      ∃ u ts, s.upcoming = (u :: ts).map .ok ++ t.upcoming ∧ .endOfInput ∉ u :: ts := by
  intro source
  let items : List Item := [⟨.first, .ok (.keyword .begin_)⟩, ⟨.first, .ok .endOfInput⟩]
  have hitems : source.items = items := by decide +kernel
  let s : State := ⟨⟨.first, .keyword .begin_⟩, [⟨.first, .ok .endOfInput⟩], 1, .initial, 1,
    #[⟨.first, .preamble⟩, ⟨.first, .mainHead⟩]⟩
  have hvisited : Visited source.items [expand statement, write (.bodyEnd .program),
      perform .leave, mark .dot, perform .checkAtEnd, write .trailer] s := by
    rw [hitems]
    have hstart : Visited items programGoals (.start items) := .start
    have hblock := ((hstart.next rfl).next rfl).next rfl
    have hlists := (((hblock.next rfl).next rfl).next rfl).next rfl
    exact hlists.next rfl
  have hrecurs := Recurs.nonterminal hvisited rfl rfl
  have hsteps : ReflTransGen StepsTo (statementGoals s.lookahead.value, s)
      ([expand statement, expand moreStatements], _) :=
    .single ⟨_, _, _, rfl, rfl, rfl⟩
  obtain ⟨-, -, -, hrecurring, -⟩ := compiling_terminates source .unlimited
  exact ⟨_, s, _, _, hrecurs, hsteps, hrecurring _ _ _ _ _ hrecurs hsteps⟩

end PlZero
