import Mathlib.Data.List.Basic
import PlZero.Compiler
import PlZero.Listing
import PlZero.Proofs.Items
import PlZero.Proofs.Progress

/-!
# Runs that write to a sink

A sink may refuse anything that it is offered, and a run stops where it does. Up to there the run
goes as the recorded one (`Mirrors`), which is shown for a step (`mirrors_step`) and then for a run
(`mirrors_run`). A run that has been stopped has written the first of the pieces that are recorded:
a step takes nothing back (`State.Precedes.step`), so what is refused in the middle of a recorded
run is refused in the whole of it.

In the end this says of any sink, however short its writes are and whatever it refuses: compiling a
program into it comes to writing the pieces of the account of this program, one after the other,
until one of them is refused, and if none is, to ending as the account does, where a run that has
finished is flushed (`writtenBy_compileInto`). The same is true of listings
(`writtenBy_listTokensInto`).
-/

namespace PlZero

variable {σ : Type} [Sink σ]

/-! ### Writing pieces -/

namespace Sink

/-- Writes the parts of each piece, up to the first one that is refused. -/
def offer : List (Located (List String)) → EStateM (Located Failure) σ Unit
  | [] => pure ()
  | piece :: pieces => do
    blame piece.line (writeParts piece.value)
    offer pieces

/-- The end of a run that has written everything. If it has finished, there is a flush. -/
def finish (ending : Except (Located Failure) Line) : EStateM (Located Failure) σ Unit :=
  match ending with
  | .error f => throw f
  | .ok line => blame line flush

theorem offer_append (pieces more : List (Located (List String))) (out : σ) :
    offer (pieces ++ more) out =
      match offer pieces out with
      | .ok _ out => offer more out
      | .error f out => .error f out := by
  induction pieces generalizing out with
  | nil => rfl
  | cons piece pieces ih =>
    simp only [offer, List.cons_append, bind, EStateM.bind]
    cases blame piece.line (writeParts piece.value) out with
    | ok u out => exact ih out
    | error f out => rfl

end Sink

/-- The job writes pieces with the texts that the account has, until one of them is refused, and if
none is, it ends as the account does. -/
def Account.WrittenBy (a : Account) (job : EStateM (Located Failure) σ Unit) : Prop :=
  ∃ pieces : List (Located (List String)), a.pieces = pieces.map (Located.map String.join) ∧
    job = do
      Sink.offer pieces
      Sink.finish a.ending

omit [Sink σ] in
/-- What stops the writing of pieces is the sink. -/
theorem Sink.output_of_blame {α : Type} {line : Line} {act : EStateM String σ α}
    {f : Located Failure} {out out' : σ} (h : blame line act out = .error f out') :
    ∃ reason, f.value = .output reason := by
  unfold blame at h
  split at h <;> cases h
  exact ⟨_, rfl⟩

theorem Sink.output_of_offer {pieces : List (Located (List String))} {f : Located Failure}
    {out out' : σ} (h : offer pieces out = .error f out') : ∃ reason, f.value = .output reason := by
  induction pieces generalizing out with
  | nil => cases h
  | cons piece pieces ih =>
    simp only [offer, bind, EStateM.bind] at h
    split at h
    · exact ih h
    · next hpiece =>
      cases h
      exact output_of_blame hpiece

/-- **What stops a job** is the sink, or what stops it by itself. -/
theorem Account.WrittenBy.failure_cases {a : Account} {job : EStateM (Located Failure) σ Unit}
    (hjob : a.WrittenBy job) {f : Located Failure} {out out' : σ} (h : job out = .error f out') :
    (∃ reason, f.value = .output reason) ∨ a.failure? = some f := by
  obtain ⟨pieces, -, rfl⟩ := hjob
  simp only [bind, EStateM.bind] at h
  split at h
  · next hoffer =>
    rw [Account.failure?]
    cases hending : a.ending with
    | error e =>
      rw [hending] at h
      cases h
      exact .inr rfl
    | ok line =>
      rw [hending] at h
      exact .inl (Sink.output_of_blame h)
  · next hoffer =>
    cases h
    exact .inl (Sink.output_of_offer hoffer)

/-! ### Going on -/

/-- A run that is in the state `s` can get to the state `t`: what has been written stays, and so
does what has been asked for. -/
structure State.Precedes (s t : State) : Prop where
  written_extends : s.written.toList <+: t.written.toList
  fetched_le : s.fetched ≤ t.fetched

namespace State.Precedes

theorem refl (s : State) : s.Precedes s := ⟨List.prefix_rfl, Nat.le_refl _⟩

theorem trans {s t u : State} (h₁ : s.Precedes t) (h₂ : t.Precedes u) : s.Precedes u :=
  ⟨h₁.written_extends.trans h₂.written_extends, Nat.le_trans h₁.fetched_le h₂.fetched_le⟩

theorem write? (s : State) (f : Option Fragment) : s.Precedes (s.write? f) := by
  cases f with
  | none => exact refl s
  | some f => exact ⟨by simp [State.write?, State.write], Nat.le_refl _⟩

theorem fetch (s : State) : s.Precedes s.fetch.state :=
  ⟨s.written_fetch ▸ List.prefix_rfl, s.fetched_fetch ▸ Nat.le_succ _⟩

theorem perform (a : Action) (s : State) : s.Precedes (a.perform s).state := by
  cases a with
  | write f => exact write? s (some f)
  | fetch => exact fetch s
  | closeScope => exact ⟨List.prefix_rfl, Nat.le_refl _⟩
  | enter | leave | checkArray | checkPlain | checkAtEnd =>
    simp only [Action.perform]
    split <;> exact ⟨List.prefix_rfl, Nat.le_refl _⟩

/-- A step, whether it fails or not, takes nothing back. -/
theorem step (g : Goal) (s : State) : s.Precedes (step g s).state := by
  cases g with
  | expand n =>
    simp only [PlZero.step]
    split <;> exact refl s
  | fill slot =>
    simp only [step_fill_eq]
    split
    · next scope f _ =>
      have hscope : s.Precedes { s with scope := scope } := ⟨List.prefix_rfl, Nat.le_refl _⟩
      rw [Outcome.state_leavesNone]
      exact hscope.trans ((write? _ f).trans (fetch _))
    · exact refl s
  | perform a =>
    rw [PlZero.step, Outcome.state_leavesNone]
    exact perform a s

/-- A run, whether it fails or not, takes nothing back. -/
theorem run (goals : List Goal) (s : State) : s.Precedes (run goals s).state := by
  induction goals, s using run_induction with
  | nil s =>
    rw [run_nil]
    exact refl s
  | stop g gs s f t hstep =>
    have hprecedes := step g s
    rw [hstep] at hprecedes
    rw [run_cons, hstep]
    exact hprecedes
  | next g gs s more t hstep ih =>
    have hprecedes := step g s
    rw [hstep] at hprecedes
    rw [run_cons, hstep]
    exact hprecedes.trans ih

end State.Precedes

/-! ### Mirroring a recorded run -/

/-- What has been recorded, in the parts in which it is written to a sink. -/
def State.parts (s : State) : List (Located (List String)) :=
  s.written.toList.map (Located.map Fragment.parts)

/-- The same outcome with another output. -/
def Outcome.into {α : Type} (o : Outcome α) (out : σ) : Outcome α σ :=
  match o with
  | .ok a s => .ok a (s.into out)
  | .error f s => .error f (s.into out)

/-- How often an item has been asked for by then. -/
def Outcome.fetched {α ω : Type} : Outcome α ω → Nat
  | .ok _ s | .error _ s => s.fetched

/-- Part of a run comes to `o'` if it writes to a sink that has been in the state `first` before
anything was written, and to `o` if it is recorded. It is the same as long as nothing is refused. -/
inductive Mirrors {α : Type} (first : σ) (o : Outcome α) (o' : Outcome α σ) : Prop
  | taken {out : σ} (offer_eq : Sink.offer o.state.parts first = .ok () out) (eq : o' = o.into out)
  | refused {f : Located Failure} {out : σ} {s : State}
    (offer_eq : Sink.offer o.state.parts first = .error f out)
    (fetched_le : s.fetched ≤ o.state.fetched) (eq : o' = .error f (s.into out))

/-- The sink has taken everything that has been recorded so far. -/
def State.TakenBy (s : State) (first out : σ) : Prop :=
  Sink.offer s.parts first = .ok () out

variable {first out : σ} {s : State}

/-- Where nothing has been written, nothing is refused. -/
theorem Mirrors.of_written_eq {α : Type} (h : s.TakenBy first out) {o : Outcome α}
    {o' : Outcome α σ} (hwritten : o.state.written = s.written) (heq : o' = o.into out) :
    Mirrors first o o' :=
  .taken (by rw [State.parts, hwritten]; exact h) heq

theorem mirrors_emit (h : s.TakenBy first out) (f : Fragment) :
    Mirrors first (.ok () (s.write f)) ((s.into out).emit f) := by
  have hoffer : Sink.offer (s.write f).parts first =
      blame s.lookahead.line (Sink.writeParts f.parts) out := by
    have hparts : (s.write f).parts = s.parts ++ [⟨s.lookahead.line, f.parts⟩] := by
      simp [State.parts, State.write, Located.map]
    rw [hparts, Sink.offer_append, show Sink.offer s.parts first = .ok () out from h]
    simp only [Sink.offer, bind, EStateM.bind]
    cases blame s.lookahead.line (Sink.writeParts f.parts) out <;> rfl
  cases hblame : blame s.lookahead.line (Sink.writeParts f.parts) out with
  | ok u out' =>
    refine .taken (hoffer.trans hblame) ?_
    simp [State.emit, State.onOutput, Output.put, State.into, Outcome.into, State.write, hblame]
  | error e out' =>
    refine .refused (s := s) (hoffer.trans hblame) (Nat.le_refl _) ?_
    simp [State.emit, State.onOutput, Output.put, State.into, hblame]

theorem mirrors_emit? (h : s.TakenBy first out) (f : Option Fragment) :
    Mirrors first (.ok () (s.write? f)) ((s.into out).emit? f) := by
  cases f with
  | none => exact .of_written_eq h rfl rfl
  | some f => exact mirrors_emit h f

theorem mirrors_fetch (h : s.TakenBy first out) : Mirrors first s.fetch (s.into out).fetch := by
  refine .of_written_eq h s.written_fetch ?_
  obtain ⟨lookahead, ahead, fetched, scope, depth, written⟩ := s
  match ahead with
  | [] => rfl
  | ⟨_, .ok _⟩ :: _ => rfl
  | ⟨_, .error _⟩ :: _ => rfl

theorem mirrors_perform (h : s.TakenBy first out) (a : Action) :
    Mirrors first (a.perform s) (a.perform (s.into out)) := by
  cases a with
  | write f => exact mirrors_emit h f
  | fetch => exact mirrors_fetch h
  | closeScope => exact .of_written_eq h rfl rfl
  | enter | leave | checkArray | checkPlain | checkAtEnd =>
    simp only [Action.perform, State.into]
    split <;> exact .of_written_eq h rfl (by simp [*, Outcome.into, State.into, State.fail])

namespace Mirrors

/-- A run that writes to a sink asks for no more items than the recorded one. -/
theorem fetched_le {α : Type} {o : Outcome α} {o' : Outcome α σ} (h : Mirrors first o o') :
    o'.fetched ≤ o.state.fetched := by
  cases h with
  | taken _ heq =>
    subst heq
    cases o <;> exact Nat.le_refl _
  | refused _ hfetched heq =>
    subst heq
    exact hfetched

/-- What is refused in one part of a run is refused in the whole of it, whatever would have been
written later. -/
theorem of_refused {α : Type} {o : Outcome α} {f : Located Failure} {t : State}
    (hoffer : Sink.offer s.parts first = .error f out) (hfetched : t.fetched ≤ s.fetched)
    (hprecedes : s.Precedes o.state) : Mirrors first o (.error f (t.into out)) := by
  obtain ⟨later, hlater⟩ := hprecedes.written_extends
  refine .refused ?_ (Nat.le_trans hfetched hprecedes.fetched_le) rfl
  rw [State.parts, ← hlater, List.map_append, Sink.offer_append]
  rw [State.parts] at hoffer
  rw [hoffer]

variable {o : Outcome Unit} {o' : Outcome Unit σ}

theorem leavesNone (h : Mirrors first o o') : Mirrors first o.leavesNone o'.leavesNone := by
  cases h with
  | taken hoffer heq =>
    subst heq
    cases o <;> exact .taken hoffer rfl
  | refused hoffer hfetched heq =>
    subst heq
    have hstate := Outcome.state_leavesNone o
    exact .refused (hstate ▸ hoffer) (hstate ▸ hfetched) rfl

theorem andThen {α : Type} {next : State → Outcome α} {next' : State σ → Outcome α σ}
    (h : Mirrors first (.ok () s) o')
    (hnext : ∀ out, s.TakenBy first out → Mirrors first (next s) (next' (s.into out)))
    (hprecedes : s.Precedes (next s).state) : Mirrors first (next s) (o'.andThen next') := by
  cases h with
  | taken hoffer heq =>
    subst heq
    exact hnext _ hoffer
  | refused hoffer hfetched heq =>
    subst heq
    exact of_refused hoffer hfetched hprecedes

end Mirrors

/-- **A step goes as the recorded one**, up to where something is refused. -/
theorem mirrors_step (h : s.TakenBy first out) (g : Goal) :
    Mirrors first (step g s) (step g (s.into out)) := by
  cases g with
  | expand n =>
    simp only [step, State.into]
    split <;> exact .of_written_eq h rfl (by simp [*, Outcome.into, State.into, State.fail])
  | fill slot =>
    rw [step_fill_eq]
    simp only [step, State.into]
    cases hfill : slot.fill s.depth s.scope s.lookahead.value with
    | error e => exact .of_written_eq h rfl rfl
    | ok r =>
      obtain ⟨scope, f⟩ := r
      have hemit := mirrors_emit? (s := { s with scope }) h f
      exact (hemit.andThen (fun _ => mirrors_fetch) (.fetch _)).leavesNone
  | perform a => exact (mirrors_perform h a).leavesNone

/-- **A run goes as the recorded one**, up to where something is refused. -/
theorem mirrors_run (goals : List Goal) (h : s.TakenBy first out) :
    Mirrors first (run goals s) (run goals (s.into out)) := by
  induction goals, s using run_induction generalizing out with
  | nil s =>
    rw [run_nil, run_nil]
    exact .of_written_eq h rfl rfl
  | stop g gs s f t hstep =>
    have hmirrors := mirrors_step h g
    rw [run_cons, run_cons]
    rw [hstep] at hmirrors ⊢
    cases hmirrors with
    | taken hoffer heq =>
      rw [heq]
      exact .taken hoffer rfl
    | refused hoffer hfetched heq =>
      rw [heq]
      exact .refused hoffer hfetched rfl
  | next g gs s more t hstep ih =>
    have hmirrors := mirrors_step h g
    rw [run_cons, run_cons]
    rw [hstep] at hmirrors ⊢
    cases hmirrors with
    | taken hoffer heq =>
      rw [heq]
      exact ih hoffer
    | refused hoffer hfetched heq =>
      -- The recorded run goes on, and only adds to what has been refused.
      rw [heq]
      exact .of_refused hoffer hfetched (.run (more ++ gs) t)

/-! ### Whole programs -/

theorem Outcome.pieces_account (o : Outcome Unit) :
    o.account.pieces = o.state.parts.map (Located.map String.join) := by
  have hpieces (s : State) : s.written.toList.map (Located.map Fragment.text) =
      s.parts.map (Located.map String.join) := by
    simp [State.parts, Located.map, Fragment.join_parts]
  cases o <;> exact hpieces _

/-- The end of a run into a sink: it fails as it is recorded, or there is a flush. -/
theorem Mirrors.flush {o : Outcome Unit} {o' : Outcome Unit σ} (h : Mirrors first o o') :
    (match o'.flush with
      | .ok _ s => EStateM.Result.ok () s.written
      | .error f s => .error f s.written) =
      (do Sink.offer o.state.parts; Sink.finish o.account.ending : EStateM _ σ Unit) first := by
  simp only [bind, EStateM.bind]
  cases h with
  | refused hoffer _ heq =>
    rw [hoffer, heq]
    rfl
  | @taken out hoffer heq =>
    rw [hoffer, heq]
    cases o with
    | error f s => rfl
    | ok u s =>
      simp only [Outcome.into, Outcome.flush, Outcome.andThen, State.onOutput, Sink.finish,
        Outcome.account, State.into]
      cases blame s.lookahead.line Sink.flush out <;> rfl

/-- Before anything has been written, nothing has been refused. -/
theorem State.takenBy_start (items : List Item) (out : σ) :
    (State.start items).TakenBy out out := rfl

/-- **Compiling into a sink** comes to writing the pieces of the account and ending as it does. -/
theorem writtenBy_compileInto (source : Source) :
    (compile source).WrittenBy (compileInto source : EStateM (Located Failure) σ Unit) :=
  ⟨(compileItems source.items).state.parts, Outcome.pieces_account _, funext fun out =>
    (mirrors_run programGoals (State.takenBy_start source.items out)).flush⟩

/-! ### Listings -/

namespace Listing

variable {tokens : List (Located Token)} {last : Item}

/-- The entries of some tokens, in parts. -/
def partsOf (tokens : List (Located Token)) : List (Located (List String)) :=
  tokens.map fun t => ⟨t.line, parts t⟩

theorem entry?_of_isLast (hlast : Cursor.isLast last) : entry? last = none := by
  obtain ⟨line, value⟩ := last
  cases value with
  | error e => rfl
  | ok t => cases t <;> first | rfl | cases hlast

theorem entry?_of_ne {t : Located Token} (ht : t.value ≠ .endOfInput) :
    entry? (t.map .ok) = some ⟨t.line, entry t⟩ := by
  obtain ⟨line, t⟩ := t
  cases t <;> first | rfl | exact absurd rfl ht

/-- The listing has the entries of the tokens in front of the last item. -/
theorem filterMap_entry? (htokens : ∀ t ∈ tokens, t.value ≠ .endOfInput)
    (hlast : Cursor.isLast last) :
    (tokens.map (Located.map Except.ok) ++ [last]).filterMap entry? =
      tokens.map fun t => ⟨t.line, entry t⟩ := by
  have hall : ∀ t ∈ tokens, entry? (t.map .ok) = some ⟨t.line, entry t⟩ :=
    fun t ht => entry?_of_ne (htokens t ht)
  rw [List.filterMap_append, List.filterMap_map]
  rw [List.filterMap_congr (g := fun t => some ⟨t.line, entry t⟩) hall]
  simp [entry?_of_isLast hlast]

/-- The last item is not listed; it says how the listing ends. -/
theorem write_last (hlast : Cursor.isLast last) (line : Line) :
    (write line [last] : EStateM (Located Failure) σ Unit) = Sink.finish (ending [last]) := by
  obtain ⟨line', value⟩ := last
  cases value with
  | error e => rfl
  | ok t => cases t <;> first | rfl | cases hlast

/-- **Listing goes from token to token**, and ends as the last item says. -/
theorem write_eq (htokens : ∀ t ∈ tokens, t.value ≠ .endOfInput) (hlast : Cursor.isLast last)
    (line : Line) :
    (write line (tokens.map (Located.map Except.ok) ++ [last]) : EStateM (Located Failure) σ Unit) =
      Sink.offer (partsOf tokens) >>= fun _ => Sink.finish (ending [last]) := by
  induction tokens generalizing line with
  | nil => exact write_last hlast line
  | cons t tokens ih =>
    obtain ⟨ht, htokens⟩ := List.forall_mem_cons.mp htokens
    have hwrite : (write line ((t :: tokens).map (Located.map Except.ok) ++ [last]) :
        EStateM (Located Failure) σ Unit) =
        blame t.line (Sink.writeParts (parts t)) >>= fun _ =>
          write t.line (tokens.map (Located.map Except.ok) ++ [last]) := by
      rw [List.map_cons, List.cons_append, Located.map, write, if_pos ht]
    rw [hwrite, ih htokens]
    simp [partsOf, Sink.offer]

theorem ending_concat (items : List Item) (last : Item) :
    ending (items ++ [last]) = ending [last] := by
  simp [ending]

end Listing

/-- **Listing into a sink** comes to writing the pieces of the account and ending as it does. -/
theorem writtenBy_listTokensInto (source : Source) :
    (listTokens source).WrittenBy (listTokensInto source : EStateM (Located Failure) σ Unit) := by
  obtain ⟨tokens, last, hitems, hlast, htokens⟩ := Cursor.items_eq_append (.start source.text)
  have hne : ∀ t ∈ tokens, t.value ≠ .endOfInput := fun t ht => (htokens t ht).2
  rw [listTokens, listTokensInto, Source.items, hitems]
  refine ⟨Listing.partsOf tokens, ?_, ?_⟩
  · rw [Listing.filterMap_entry? hne hlast, Listing.partsOf, List.map_map]
    simp [Located.map, Listing.join_parts]
  · rw [Listing.write_eq hne hlast, Listing.ending_concat]

end PlZero
