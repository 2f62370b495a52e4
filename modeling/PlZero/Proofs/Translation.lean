import PlZero.Delivery
import PlZero.Proofs.Recognition
import PlZero.Proofs.StaticRules
import PlZero.Proofs.TreeCode

/-!
# What is accepted and what is written

A text is accepted if a destination that takes everything gets the whole output of compiling it.
The texts that are accepted are those that consist of the tokens of a tree, where the tree keeps the
static rules (`accepted_iff`). What is written for such a text is the C text of its tree, between
the two ends of the frame (`output_of_accepted`), although the compiler never builds a tree.
-/

namespace PlZero

/-! ### Unlimited destinations -/

theorem receive_unlimited {d : Delivery} (hd : d.failure? = none) (piece : Located String) :
    d.receive .unlimited piece = { d with bytes := d.bytes ++ Text.utf8 piece.value } := by
  simp [Delivery.receive, hd, Destination.unlimited]

theorem foldl_receive_unlimited (pieces : List (Located String)) {d : Delivery}
    (hd : d.failure? = none) :
    pieces.foldl (Delivery.receive .unlimited) d =
      { d with bytes := d.bytes ++ Text.utf8 (String.join (pieces.map Located.value)) } := by
  induction pieces generalizing d with
  | nil => simp [Text.utf8]
  | cons piece pieces ih =>
    rw [List.foldl_cons, receive_unlimited hd, ih (by exact hd)]
    simp [← Array.toList_inj]

/-- A destination that takes everything gets the whole text, and fails only where the run does. -/
theorem deliver_unlimited (a : Account) :
    (a.deliver .unlimited).failure? = a.failure? ∧
      (a.deliver .unlimited).bytes = (Text.utf8 a.text).toArray := by
  have hfold := foldl_receive_unlimited a.pieces (d := .empty) rfl
  simp only [Account.deliver, hfold, Account.failure?, Account.text]
  cases a.ending with
  | error f => simp [Delivery.close, Delivery.empty]
  | ok line => simp [Delivery.close, Delivery.empty, Delivery.flush, Destination.unlimited]

/-! ### Accepted texts -/

/-- A destination that takes everything gets the whole output of the text. -/
def Source.Accepted (source : Source) : Prop :=
  ((compile source).deliver .unlimited).failure? = none

theorem Source.accepted_iff_finished {source : Source} :
    source.Accepted ↔ ∃ s, compileItems source.items = .ok () s := by
  rw [Accepted, (deliver_unlimited _).1, compile]
  cases compileItems source.items with
  | ok _ s => simp [Outcome.account, Account.failure?]
  | error f s => simp [Outcome.account, Account.failure?]

/-- What fails is the run, where everything is taken. -/
theorem Source.failure_eq_some_iff {source : Source} {f : Located Failure} :
    ((compile source).deliver .unlimited).failure? = some f ↔
      ∃ s, compileItems source.items = .error f s := by
  rw [(deliver_unlimited _).1, compile]
  cases compileItems source.items with
  | ok _ s => simp [Outcome.account, Account.failure?]
  | error g s => simp [Outcome.account, Account.failure?]

/-- Compiling a text that consists of the tokens of a tree does what the tree says. -/
theorem Source.Reads.run {source : Source} {p : Tree.Program} (h : source.Reads p.tokens) :
    (p.Valid ∧ ∃ s, compileItems source.items = .ok () s ∧
      s.fragments = .preamble :: (p.fragments ++ [.trailer])) ∨
    (¬ p.Valid ∧ ∃ f s, compileItems source.items = .error f s) := by
  have hrun := Tree.run_program p (Source.reads_iff.mp h)
  have hvalid := p.applyAll_iff fun t ht => (h.wellFormed t ht).1
  cases hresult : Tree.applyAll .initial p.operations with
  | error e =>
    rw [hresult] at hrun hvalid
    obtain ⟨f, s, hrun, -⟩ := hrun
    exact .inr ⟨fun hp => by simpa using hvalid.mpr hp, f, s, hrun⟩
  | ok scope =>
    rw [hresult] at hrun hvalid
    obtain ⟨s, hrun, hfragments, -⟩ := hrun
    exact .inl ⟨hvalid.mp ⟨scope, rfl⟩, s, hrun, hfragments⟩

/-- An accepted text consists of the tokens of a tree that keeps the static rules. -/
theorem Source.Accepted.exists_tree {source : Source} (h : source.Accepted) :
    ∃ p : Tree.Program, source.Reads p.tokens ∧ p.Valid := by
  obtain ⟨s, hs⟩ := Source.accepted_iff_finished.mp h
  obtain ⟨p, hp⟩ := sentence_of_finished hs
  rcases hp.run with ⟨hvalid, -⟩ | ⟨-, f, s', herror⟩
  · exact ⟨p, hp, hvalid⟩
  · rw [hs] at herror
    cases herror

/-- **The compiler accepts the language and nothing else.** A text is accepted just if it consists
of the tokens of a tree of the grammar that keeps the static rules. -/
theorem accepted_iff (source : Source) :
    ((compile source).deliver .unlimited).failure? = none ↔
      ∃ p : Tree.Program, source.Reads p.tokens ∧ p.Valid := by
  refine ⟨Source.Accepted.exists_tree, ?_⟩
  rintro ⟨p, hp, hvalid⟩
  rcases hp.run with ⟨-, s, hs, -⟩ | ⟨hinvalid, -⟩
  · exact Source.accepted_iff_finished.mpr ⟨s, hs⟩
  · exact absurd hvalid hinvalid

/-! ### The output -/

/-- Compiling an accepted text that consists of the tokens of a tree writes what the tree says. -/
theorem Source.Reads.finished {source : Source} {p : Tree.Program} (h : source.Reads p.tokens)
    (haccepted : source.Accepted) :
    p.Valid ∧ ∃ s, compileItems source.items = .ok () s ∧
      s.fragments = .preamble :: (p.fragments ++ [.trailer]) := by
  obtain ⟨s, hs⟩ := Source.accepted_iff_finished.mp haccepted
  rcases h.run with hfinished | ⟨-, f, s', herror⟩
  · exact hfinished
  · rw [hs] at herror
    cases herror

theorem Source.Reads.text_compile {source : Source} {p : Tree.Program} (h : source.Reads p.tokens)
    (haccepted : source.Accepted) :
    (compile source).text = Fragment.preamble.text ++ p.code ++ Fragment.trailer.text := by
  obtain ⟨-, s, hs, hfragments⟩ := h.finished haccepted
  have hpieces : (compile source).pieces.map Located.value = s.fragments.map Fragment.text := by
    simp [compile, hs, Outcome.account, State.fragments, Function.comp_def]
  rw [Account.text, hpieces, hfragments, ← p.codeOf_fragments]
  simp [codeOf, String.append_assoc]

/-- **The output is the C program of the tree.** An accepted text consists of the tokens of a tree,
and whatever tree it is, the output is the head of the frame, the code of the tree and the end of
the frame. -/
theorem output_of_accepted (source : Source)
    (h : ((compile source).deliver .unlimited).failure? = none) :
    (∃ p : Tree.Program, source.Reads p.tokens) ∧
      ∀ p : Tree.Program, source.Reads p.tokens →
        ((compile source).deliver .unlimited).bytes =
          (Text.utf8 (Fragment.preamble.text ++ p.code ++ Fragment.trailer.text)).toArray := by
  obtain ⟨p, hp, -⟩ := Source.Accepted.exists_tree h
  refine ⟨⟨p, hp⟩, fun p hp => ?_⟩
  rw [(deliver_unlimited _).2, hp.text_compile h]

/-- A program with an array, a procedure and a call, which is accepted. -/
theorem output_of_accepted_call :
    let source : Source := ⟨"call.pl0", "var a size 2; procedure p; writeStr a; call p."⟩
    ((compile source).deliver .unlimited).failure? = none ∧
      (∃ p : Tree.Program, source.Reads p.tokens) ∧
        ∀ p : Tree.Program, source.Reads p.tokens →
          ((compile source).deliver .unlimited).bytes =
            (Text.utf8 (Fragment.preamble.text ++ p.code ++ Fragment.trailer.text)).toArray :=
  have h : ((compile ⟨"call.pl0", "var a size 2; procedure p; writeStr a; call p."⟩).deliver
      .unlimited).failure? = none := by decide +kernel
  ⟨h, output_of_accepted _ h⟩

end PlZero
