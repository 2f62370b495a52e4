import PlZero.Proofs.C.Fragments
import PlZero.Proofs.Fetching
import PlZero.Proofs.Limits

/-!
# What a run may write

A step, whether it fails or not, writes one fragment at most, and this is either the fragment of its
goal or the one with which the token that is looked at fills its slot (`Goal.Emits`). So what holds
of all that is emitted at the places of a run holds of all that the run writes, even if it does not
come to its end (`forall_written`).

Each token that is looked at is spelled as its class asks (`Visited.wellFormed_lookahead`), and so
each fragment that is written is well formed: its names are words, and its numbers have no sign
(`wellFormed_of_written`).
-/

namespace PlZero

open Goal

variable {items : List Item} {source : Source} {g : Goal} {gs goals : List Goal} {s : State}
  {f : Fragment}

/-! ### What a goal emits -/

/-- The fragment that a goal has of its own. -/
def Goal.own? : Goal → Option Fragment
  | perform (.write f) | fill (.written _ f) => some f
  | _ => none

/-- The goal writes the fragment in this state: it is the goal's own, or the token that is looked at
fills the slot with it. -/
def Goal.Emits (g : Goal) (s : State) (f : Fragment) : Prop :=
  g = perform (.write f) ∨ ∃ slot scope, g = fill slot ∧
    slot.fill s.depth s.scope s.lookahead.value = .ok (scope, some f)

/-- A step, whether it fails or not, writes one fragment at most, which its goal emits. -/
theorem written_of_step (g : Goal) (s : State) :
    ∃ f : Option Fragment, (step g s).state.fragments = s.fragments ++ f.toList ∧
      ∀ x ∈ f, g.Emits s x := by
  cases g with
  | expand n =>
    refine ⟨none, ?_, by simp⟩
    simp only [step]
    split <;> exact (List.append_nil _).symm
  | fill slot =>
    simp only [step_fill_eq]
    split
    · next scope f hfill =>
      refine ⟨f, ?_, fun x hx => .inr ⟨slot, scope, rfl, ?_⟩⟩
      · rw [Outcome.state_leavesNone, State.fragments, State.written_fetch]
        exact State.fragments_write? { s with scope := scope } f
      · rw [hfill, hx]
    · exact ⟨none, (List.append_nil _).symm, by simp⟩
  | perform a =>
    rw [step, Outcome.state_leavesNone]
    cases a with
    | write f => exact ⟨some f, s.fragments_write f, by simp [Emits]⟩
    | fetch =>
      refine ⟨none, ?_, by simp⟩
      rw [Action.perform, State.fragments, State.written_fetch, State.fragments]
      exact (List.append_nil _).symm
    | closeScope => exact ⟨none, (List.append_nil _).symm, by simp⟩
    | enter | leave | checkArray | checkPlain | checkAtEnd =>
      refine ⟨none, ?_, by simp⟩
      simp only [Action.perform]
      split <;> exact (List.append_nil _).symm

/-! ### All that is written -/

section

variable {P : Fragment → Prop}
  (emits : ∀ {g gs s f}, Visited items (g :: gs) s → g.Emits s f → P f)

include emits

theorem Visited.forall_written_of_step (h : Visited items (g :: gs) s)
    (hbefore : ∀ f ∈ s.fragments, P f) : ∀ f ∈ (step g s).state.fragments, P f := by
  obtain ⟨f, hfragments, hf⟩ := written_of_step g s
  rw [hfragments]
  refine List.forall_mem_append.mpr ⟨hbefore, fun x hx => emits h (hf x ?_)⟩
  exact Option.mem_toList.mp hx

theorem Visited.forall_written (h : Visited items goals s) : ∀ f ∈ s.fragments, P f := by
  induction h with
  | start => simp [State.start, State.fragments]
  | next visited step_eq ih =>
    have hstep := visited.forall_written_of_step emits ih
    rwa [step_eq] at hstep

/-- **What holds of all that the goals of a run emit holds of all that is written**, whether the
run comes to its end or not. -/
theorem forall_written : ∀ f ∈ (compileItems items).state.fragments, P f := by
  rcases compileItems_ends items with
    ⟨t, hrun, hvisited⟩ | ⟨g, gs, t, e, t', hrun, hvisited, hstep⟩
  · rw [hrun]
    exact hvisited.forall_written emits
  · rw [hrun]
    have hlast := hvisited.forall_written_of_step emits (hvisited.forall_written emits)
    rwa [hstep] at hlast

end

/-! ### Tokens -/

/-- What holds of the tokens of a text, and of its end, holds of the token that is looked at. -/
theorem Visited.forall_lookahead {P : Token → Prop} (h : Visited source.items goals s)
    (tokens : ∀ line t, ⟨line, .ok t⟩ ∈ source.items → P t) (endOfInput : P .endOfInput) :
    P s.lookahead.value := by
  cases h.fetching with
  | blank | ready => exact endOfInput
  | begun follows bounded fetch_not_mem =>
    obtain ⟨before, hitems, -⟩ := follows
    have hmem : s.lookahead.map .ok ∈ source.items := by simp [hitems]
    exact tokens _ _ hmem

/-- **The token that is looked at is spelled as its class asks.** -/
theorem Visited.wellFormed_lookahead (h : Visited source.items goals s) :
    s.lookahead.value.WellFormed :=
  h.forall_lookahead (fun _ _ hmem => Source.wellFormed_of_mem hmem) trivial

/-- The token that fills a slot is one of the text. -/
theorem Visited.lookahead_mem {slot : Slot} (h : Visited source.items (fill slot :: gs) s) :
    .ok s.lookahead.value ∈ source.items.map Located.value := by
  have hfetching := h.fetching
  generalize hgoals : fill slot :: gs = goals at hfetching
  cases hfetching with
  | blank => cases hgoals
  | ready => cases hgoals
  | begun follows bounded fetch_not_mem =>
    obtain ⟨before, hitems, -⟩ := follows
    simp [hitems]

/-! ### Fragments -/

/-- What a goal writes by itself leads from one place to another. -/
theorem Visited.exists_lead (h : Visited items (g :: gs) s)
    (hg : g = perform (.write f) ∨ ∃ t, g = fill (.written t f)) : ∃ p q, f.lead p = some q := by
  obtain ⟨p, q, -, hq, -⟩ := h.exists_leadOn
  rcases hg with rfl | ⟨t, rfl⟩ <;> exact ⟨p, q, hq⟩

/-- What leads from one place to another has no name and no number, and C writes its mark in the
same way. -/
theorem Fragment.wellFormed_of_lead {p q : Place} (h : f.lead p = some q) : f.WellFormed := by
  unfold Fragment.lead at h
  split at h <;> cases h <;> trivial

/-- The fragment is well formed, and no end of the frame around the program. -/
def Fragment.IsInner (f : Fragment) : Prop := f.WellFormed ∧ f ≠ .preamble ∧ f ≠ .trailer

/-- Where a slot has no fragment of its own, the token that fills it makes one that is well formed.
-/
theorem Slot.isInner_of_fill {slot : Slot} {depth : Nat} {scope scope' : Scope} {t : Token}
    (hwritten : ∀ e, slot ≠ .written e f) (ht : t.WellFormed)
    (h : slot.fill depth scope t = .ok (scope', some f)) : f.IsInner := by
  cases Slot.fills_of_fill h with
  | written e => exact absurd rfl (hwritten e)
  | @declared kind =>
    cases kind <;> exact ⟨ht.1, by simp [declarationHead], by simp [declarationHead]⟩
  | relation r => cases r <;> simp [Fragment.IsInner, Fragment.WellFormed, Tree.Relation.fragment]
  | @used slot =>
    cases slot <;> exact ⟨ht.1, by simp [Slot.fragmentFor], by simp [Slot.fragmentFor]⟩
  | constantValue | operand | printed => exact ⟨ht.1, by simp, by simp⟩
  | arrayBound | printedText => exact ⟨trivial, by simp, by simp⟩

/-- What a visited goal emits is well formed. -/
theorem Visited.wellFormed_of_emits (h : Visited source.items (g :: gs) s) (hf : g.Emits s f) :
    f.WellFormed := by
  rcases hf with hg | ⟨slot, scope, rfl, hfill⟩
  · obtain ⟨p, q, hq⟩ := h.exists_lead (.inl hg)
    exact Fragment.wellFormed_of_lead hq
  · by_cases hwritten : ∃ e, slot = .written e f
    · obtain ⟨e, rfl⟩ := hwritten
      obtain ⟨p, q, hq⟩ := h.exists_lead (.inr ⟨e, rfl⟩)
      exact Fragment.wellFormed_of_lead hq
    · have hslot : ∀ e, slot ≠ .written e f := fun e he => hwritten ⟨e, he⟩
      exact (Slot.isInner_of_fill hslot h.wellFormed_lookahead hfill).1

/-- **All fragments that a run writes are well formed**, whether it comes to its end or not. -/
theorem wellFormed_of_written (source : Source) :
    ∀ f ∈ (compileItems source.items).state.fragments, f.WellFormed :=
  forall_written fun h hf => h.wellFormed_of_emits hf

end PlZero
