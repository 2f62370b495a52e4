import PlZero.Proofs.C.Boundaries

/-!
# Delimiters

Parentheses, brackets and braces are delimiters, unless they stand in a comment or a literal
(`C.delimiters`). They are nested properly if each closing one belongs to the one that was opened
last among those that are open (`C.nest`). This can be asked wherever a text is cut, since reading
on does not change what has been read (`C.delimiters_isPrefix`).

What a goal writes fits behind what has been written if this ends in a certain way (`Ending`) and if
the delimiters that are to be closed are open there; and it leaves the text in a certain way, too.
Both together are the edge of the text (`Edge`). Where a goal leads from one edge to another, so do
the goals that it stands for (`edges_expansion`) and the fragment that it writes (`edge_of_fill`).
So the output fits together at every step of a run, whether this comes to its end or not
(`exists_edge`): its tokens are those of its fragments, and its delimiters are nested
(`delimiters_are_nested`).
-/

namespace PlZero

/-! ### Delimiters -/

namespace C

/-- The delimiter that closes this one, if it opens. -/
def closing? : Char → Option Char
  | '(' => some ')'
  | '[' => some ']'
  | '{' => some '}'
  | _ => none

/-- The delimiters in a token. Those in a literal do not count, and words and numbers have none. -/
def Token.delimiters : Token → List Char
  | mark text | directive text =>
    text.toList.filter fun c => c ∈ ['(', ')', '[', ']', '{', '}']
  | _ => []

/-- The delimiters of a text, outside comments and literals. -/
def delimiters (text : String) : List Char := (tokens text).flatMap Token.delimiters

/-- Reads a delimiter, where those in `unclosed` are still needed to close what is open, the one
that is needed first in front. None but this one may close. -/
def nestOne (unclosed : List Char) (c : Char) : Option (List Char) :=
  match closing? c, unclosed with
  | some d, _ => some (d :: unclosed)
  | none, d :: rest => if c = d then some rest else none
  | none, [] => none

/-- Reads delimiters from left to right, as long as they are nested. -/
def nest (unclosed : List Char) (cs : List Char) : Option (List Char) := cs.foldlM nestOne unclosed

theorem nest_append (unclosed cs ds : List Char) :
    nest unclosed (cs ++ ds) = nest unclosed cs >>= (nest · ds) := List.foldlM_append

/-- A lexeme that goes on keeps its delimiters. -/
theorem Pending.delimiters_isPrefix {p q : Pending} {c : Char} (h : p.extend c = some q) :
    p.flush.flatMap Token.delimiters <+: q.flush.flatMap Token.delimiters := by
  cases p with
  | none | closed | stray => cases h
  | word | number | quoted | lineComment | comment => exact List.nil_prefix
  | mark text =>
    simp only [extend] at h
    split at h
    · cases h
      simp [flush, Token.delimiters]
    · -- A slash or a dot goes on as something else, but neither is a delimiter.
      have htext : text = ['/'] ∨ text = ['.'] := by
        by_contra hnot
        simp_all
      rcases htext with rfl | rfl <;> exact List.nil_prefix
  | directive text =>
    simp only [extend] at h
    split at h <;> cases h
    simp [flush, Token.delimiters]

/-- The text behind a lexeme leaves the delimiters of it as they are. -/
theorem delimiters_scan (p : Pending) (cs : List Char) :
    p.flush.flatMap Token.delimiters <+:
      ((scan p cs).1 ++ (scan p cs).2.flush).flatMap Token.delimiters := by
  induction cs generalizing p with
  | nil => exact List.prefix_rfl
  | cons c cs ih =>
    rw [scan_cons, Pending.step]
    cases hextend : p.extend c with
    | none => simp
    | some q => exact (p.delimiters_isPrefix hextend).trans (ih q)

/-- **Reading on changes no delimiters**, wherever a text is cut. -/
theorem delimiters_isPrefix (u v : String) : delimiters u <+: delimiters (u ++ v) := by
  have hrest := delimiters_scan (after u) v.toList
  have htext : tokens (u ++ v) = (scan .none u.toList).1 ++
      ((scan (after u) v.toList).1 ++ (scan (after u) v.toList).2.flush) := by
    rw [tokens, after, String.toList_append, scan_append, List.append_assoc]
    rfl
  rw [delimiters, delimiters, htext, tokens, List.flatMap_append, List.flatMap_append]
  exact (List.prefix_append_right_inj _).mpr hrest

/-- What is nested is nested from its beginning on. -/
theorem exists_nest_of_isPrefix {unclosed rest cs ds : List Char} (h : nest unclosed ds = some rest)
    (hcs : cs <+: ds) : ∃ between, nest unclosed cs = some between := by
  obtain ⟨more, rfl⟩ := hcs
  rw [nest_append] at h
  obtain ⟨between, hbetween, -⟩ := Option.bind_eq_some_iff.mp h
  exact ⟨between, hbetween⟩

/-- A closing delimiter is the one that is needed first. -/
theorem eq_of_nest_closing {unclosed rest : List Char} {c : Char} (hc : closing? c = none)
    (h : nest unclosed [c] = some rest) : unclosed = c :: rest := by
  cases unclosed with
  | nil => simp [nest, nestOne, hc] at h
  | cons d ds =>
    simp only [nest, List.foldlM_cons, List.foldlM_nil, nestOne, hc] at h
    split at h
    · next hd =>
      cases h
      rw [hd]
    · cases h

end C

open C (nest nest_append)

/-- The delimiters of a fragment. -/
def Fragment.delimiters (f : Fragment) : List Char := f.tokens.flatMap C.Token.delimiters

/-! ### Edges -/

/-- What fits behind the second ending fits behind the first one. -/
def Ending.serves : Ending → Ending → Bool
  | settled, _ | operator, operator | operator, sign | operand, operand | sign, sign => true
  | _, _ => false

namespace Ending

variable {e e' e'' : Ending}

theorem serves_self (e : Ending) : e.serves e := by
  cases e <;> rfl

theorem serves_trans (h : e.serves e') (h' : e'.serves e'') : e.serves e'' := by
  revert h h'
  cases e <;> cases e' <;> cases e'' <;> decide

theorem fits_of_serves (h : e.serves e') {b : Beginning} (hb : e'.Fits b) : e.Fits b := by
  revert h hb
  cases e <;> cases e' <;> cases b <;> decide

end Ending

/-- The edge of what has been written: in what it ends, and what is still needed to close the
delimiters that are open. -/
structure Edge where
  ending : Ending
  unclosed : List Char

namespace Edge

/-- Before anything is written. -/
def blank : Edge := ⟨.settled, []⟩

/-- What may be written behind the second edge may be written behind the first one. -/
def Serves (p q : Edge) : Prop := p.ending.serves q.ending ∧ p.unclosed = q.unclosed

variable {p q r : Edge}

theorem Serves.refl (p : Edge) : p.Serves p := ⟨p.ending.serves_self, rfl⟩

theorem Serves.trans (h : p.Serves q) (h' : q.Serves r) : p.Serves r :=
  ⟨Ending.serves_trans h.1 h'.1, h.2.trans h'.2⟩

/-- The edge behind something that may follow `front`, has the delimiters `cs` and ends in `back`.
-/
def across (front : Ending) (cs : List Char) (back : Ending) (p : Edge) : Option Edge :=
  if p.ending.serves front then (nest p.unclosed cs).map (Edge.mk back) else none

end Edge

open Edge (across)

/-- The edge behind a fragment. -/
def Fragment.edge (f : Fragment) (p : Edge) : Option Edge :=
  if p.ending.Fits f.beginning then (nest p.unclosed f.delimiters).map (Edge.mk f.ending) else none

/-- The edge behind the token of a slot. -/
def Slot.edge : Slot → Edge → Option Edge
  | skipped _ => some
  | written _ f => f.edge
  | declared .constant => across .settled [] .operator
  | declared .variable => across .settled [] .operand
  | declared .procedure => across .settled ['{'] .settled
  | constantValue => across .operator [] .settled
  | arrayBound => across .operand [] .operand
  | target => across .settled [] .operand
  | operand => across .sign [] .operand
  | relation => across .operand [] .operator
  | callee | printed _ | stored _ | printedText => across .settled [] .settled

/-- The edge behind an action. -/
def Action.edge : Action → Edge → Option Edge
  | write f => f.edge
  | _ => some

/-- The edge behind a nonterminal. A block closes the brace that the head of its procedure has
opened, and the statements of a compound one close that of the compound statement. -/
def Nonterminal.edge : Nonterminal → Edge → Option Edge
  | block .procedure => across .settled ['}'] .settled
  | statement => across .settled [] .operand
  | moreStatements => across .operand ['}'] .settled
  | condition | expression => across .operator [] .operand
  | term | factor => across .sign [] .operand
  | moreTerms | moreFactors | index _ | variableSize => across .operand [] .operand
  | block .program | constantList | moreConstants | variableList | moreVariables | procedureList
  | optionalInto => across .settled [] .settled

/-- The edge behind a goal. -/
def Goal.edge : Goal → Edge → Option Edge
  | expand n => n.edge
  | fill s => s.edge
  | perform a => a.edge

/-- The edge behind some goals. -/
def edges (goals : List Goal) (p : Edge) : Option Edge := goals.foldlM (fun p g => g.edge p) p

/-- The edge behind some fragments. -/
def edgeOf (fs : List Fragment) (p : Edge) : Option Edge := fs.foldlM (fun p f => f.edge p) p

variable {p p' q q' : Edge} {goals : List Goal} {g : Goal} {fs : List Fragment} {f : Fragment}

theorem edges_cons {gs : List Goal} :
    edges (g :: gs) p = some q ↔ ∃ r, g.edge p = some r ∧ edges gs r = some q :=
  Option.bind_eq_some_iff

theorem edgeOf_cons :
    edgeOf (f :: fs) p = some q ↔ ∃ r, f.edge p = some r ∧ edgeOf fs r = some q :=
  Option.bind_eq_some_iff

/-- A fragment that leads to an edge fits, and leaves the delimiters nested. -/
theorem Fragment.eq_of_edge (h : f.edge p = some q) :
    p.ending.Fits f.beginning ∧ nest p.unclosed f.delimiters = some q.unclosed ∧
      q.ending = f.ending := by
  unfold Fragment.edge at h
  split at h
  · next hfits =>
    obtain ⟨unclosed, hunclosed, rfl⟩ := Option.map_eq_some_iff.mp h
    exact ⟨hfits, hunclosed, rfl⟩
  · cases h

/-! ### Edges that serve -/

theorem across_of_serves {front back : Ending} {cs : List Char} (hserves : p'.Serves p)
    (h : across front cs back p = some q) : across front cs back p' = some q := by
  unfold across at h ⊢
  split at h
  · next hfront => rw [if_pos (Ending.serves_trans hserves.1 hfront), hserves.2, h]
  · cases h

theorem Fragment.edge_of_serves (hserves : p'.Serves p) (h : f.edge p = some q) :
    f.edge p' = some q := by
  unfold Fragment.edge at h ⊢
  split at h
  · next hfits => rw [if_pos (Ending.fits_of_serves hserves.1 hfits), hserves.2, h]
  · cases h

/-- A goal leads from an edge that serves to one that serves. -/
theorem Goal.edge_of_serves (hserves : p'.Serves p) (h : g.edge p = some q) :
    ∃ q', g.edge p' = some q' ∧ q'.Serves q := by
  have hsame (h : g.edge p' = some q) : ∃ q', g.edge p' = some q' ∧ q'.Serves q :=
    ⟨q, h, .refl q⟩
  cases g with
  | expand n =>
    cases n with
    | block b => cases b <;> exact hsame (across_of_serves hserves h)
    | _ => exact hsame (across_of_serves hserves h)
  | fill slot =>
    cases slot with
    | skipped e =>
      cases h
      exact ⟨p', rfl, hserves⟩
    | written e f => exact hsame (Fragment.edge_of_serves hserves h)
    | declared kind => cases kind <;> exact hsame (across_of_serves hserves h)
    | _ => exact hsame (across_of_serves hserves h)
  | perform a =>
    cases a with
    | write f => exact hsame (Fragment.edge_of_serves hserves h)
    | _ =>
      cases h
      exact ⟨p', rfl, hserves⟩

theorem edges_of_serves (hserves : p'.Serves p) (h : edges goals p = some q) :
    ∃ q', edges goals p' = some q' ∧ q'.Serves q := by
  induction goals generalizing p p' with
  | nil =>
    cases h
    exact ⟨p', rfl, hserves⟩
  | cons g gs ih =>
    obtain ⟨r, hr, hgs⟩ := edges_cons.mp h
    obtain ⟨r', hr', hserves'⟩ := Goal.edge_of_serves hserves hr
    obtain ⟨q', hq', hfinal⟩ := ih hserves' hgs
    exact ⟨q', edges_cons.mpr ⟨r', hr', hq'⟩, hfinal⟩

/-! ### Expansions -/

theorem eq_of_across_brace {front back : Ending} (h : across front ['}'] back p = some q) :
    p.ending.serves front ∧ p.unclosed = '}' :: q.unclosed ∧ q.ending = back := by
  unfold across at h
  split at h
  · next hfront =>
    obtain ⟨rest, hrest, rfl⟩ := Option.map_eq_some_iff.mp h
    exact ⟨hfront, C.eq_of_nest_closing rfl hrest, rfl⟩
  · cases h

/-- **What a nonterminal stands for leads to the edge to which it leads**, or to one that serves:
what may stand for nothing does not change the edge. -/
theorem edges_expansion {n : Nonterminal} {t : Token} (h : n.expansion t = .ok goals)
    (hq : n.edge p = some q) : ∃ q', edges goals p = some q' ∧ q'.Serves q := by
  obtain ⟨e, unclosed⟩ := p
  cases n with
  | block b =>
    cases h
    cases b with
    | program =>
      cases e <;> cases hq
      exact ⟨_, rfl, .refl _⟩
    | procedure =>
      -- The brace that ends the block has been opened before it, so it is needed first here.
      obtain ⟨back, rest⟩ := q
      obtain ⟨he, hunclosed, hback⟩ := eq_of_across_brace hq
      subst hunclosed hback
      cases e <;> cases he
      exact ⟨_, rfl, .refl _⟩
  | moreStatements =>
    obtain ⟨back, rest⟩ := q
    obtain ⟨he, hunclosed, hback⟩ := eq_of_across_brace hq
    subst hunclosed hback
    simp only [Nonterminal.expansion] at h
    split at h <;> cases h <;> cases e <;> cases he <;> exact ⟨_, rfl, .refl _⟩
  | statement =>
    cases h
    unfold Nonterminal.statementGoals
    cases e <;> cases hq
    split <;> first | exact ⟨_, rfl, .refl _⟩ | exact ⟨_, rfl, rfl, rfl⟩
  | term =>
    cases h
    cases e <;> cases hq <;> exact ⟨_, rfl, .refl _⟩
  | _ =>
    simp only [Nonterminal.expansion] at h
    split at h <;> cases h <;> cases e <;> cases hq <;>
      first | exact ⟨_, rfl, .refl _⟩ | exact ⟨_, rfl, rfl, rfl⟩

/-! ### Fragments -/

theorem edgeOf_append (fs gs : List Fragment) (p : Edge) :
    edgeOf (fs ++ gs) p = edgeOf fs p >>= edgeOf gs := List.foldlM_append

theorem edgeOf_singleton (f : Fragment) (p : Edge) : edgeOf [f] p = f.edge p := by
  simp [edgeOf]

/-- A fragment that fits behind the edge, and whose delimiters come to what is said of them. -/
theorem edge_of_across {front back : Ending} {cs : List Char} (h : across front cs back p = some q)
    (hfits : front.Fits f.beginning) (hback : f.ending = back)
    (hnest : ∀ unclosed, nest unclosed f.delimiters = nest unclosed cs) :
    edgeOf [f] p = some q := by
  rw [edgeOf_singleton]
  unfold across at h
  split at h
  · next hfront => rw [Fragment.edge, if_pos (Ending.fits_of_serves hfront hfits), hnest, hback, h]
  · cases h

/-- The fragment that a token makes leads to the edge to which its slot leads. -/
theorem edge_of_fill {slot : Slot} {depth : Nat} {scope scope' : Scope} {t : Token}
    {f : Option Fragment} (h : slot.fill depth scope t = .ok (scope', f))
    (hq : slot.edge p = some q) : edgeOf f.toList p = some q := by
  cases Slot.fills_of_fill h with
  | skipped => exact hq
  | written e g => exact (edgeOf_singleton g p).trans hq
  | @declared kind => cases kind <;> exact edge_of_across hq trivial rfl fun _ => rfl
  | constantValue =>
    have hfits : Ending.operator.Fits .word := by decide
    exact edge_of_across hq hfits rfl fun _ => rfl
  | arrayBound =>
    have hfits : Ending.operand.Fits .other := by decide
    exact edge_of_across hq hfits rfl fun _ => rfl
  | relation r => cases r <;> exact edge_of_across hq (by decide) rfl fun _ => rfl
  | @used slot _ _ huse =>
    cases slot with
    | operand => exact edge_of_across hq (.inl rfl) rfl fun _ => rfl
    | printed form | stored form =>
      cases form <;> exact edge_of_across hq trivial rfl fun _ => rfl
    | target | callee | printedText => exact edge_of_across hq trivial rfl fun _ => rfl
    | _ => cases huse
  | operand => exact edge_of_across hq (.inl rfl) rfl fun _ => rfl
  | printed form => cases form <;> exact edge_of_across hq trivial rfl fun _ => rfl
  | printedText => exact edge_of_across hq trivial rfl fun _ => rfl

/-! ### Runs -/

theorem edges_append (gs hs : List Goal) (p : Edge) :
    edges (gs ++ hs) p = edges gs p >>= edges hs := List.foldlM_append

/-- What a goal emits leads to the edge to which the goal leads. -/
theorem Goal.Emits.edge {s : State} (h : g.Emits s f) (hq : g.edge p = some q) :
    edgeOf [f] p = some q := by
  rcases h with rfl | ⟨slot, scope, rfl, hfill⟩
  · exact (edgeOf_singleton f p).trans hq
  · exact edge_of_fill hfill hq

/-- **A step leads on**: the goals that it leaves lead from behind the fragment that it writes to
where the goals led before. -/
theorem edges_of_step {gs more : List Goal} {s s' : State} (h : step g s = .ok more s')
    (hq : edges (g :: gs) p = some q) :
    ∃ f : Option Fragment, s'.fragments = s.fragments ++ f.toList ∧
      ∃ r q', edgeOf f.toList p = some r ∧ edges (more ++ gs) r = some q' ∧ q'.Serves q := by
  obtain ⟨r, hr, hgs⟩ := edges_cons.mp hq
  cases g with
  | expand n =>
    obtain ⟨hexpansion, rfl⟩ := step_expand h
    obtain ⟨r', hr', hserves⟩ := edges_expansion hexpansion hr
    obtain ⟨q', hq', hserves'⟩ := edges_of_serves hserves hgs
    refine ⟨none, (List.append_nil _).symm, p, q', rfl, ?_, hserves'⟩
    rw [edges_append, hr']
    exact hq'
  | fill slot =>
    obtain ⟨rfl, f, hfill, -, hfragments⟩ := step_fill h
    exact ⟨f, hfragments, r, q, edge_of_fill hfill hr, hgs, .refl q⟩
  | perform a =>
    obtain ⟨rfl, hperform⟩ := step_perform h
    by_cases hwrite : ∃ f, a = .write f
    · obtain ⟨f, rfl⟩ := hwrite
      cases hperform
      exact ⟨some f, s.fragments_write f, r, q, (edgeOf_singleton f p).trans hr, hgs, .refl q⟩
    · have hsame : a.edge p = some p := by
        cases a with
        | write f => exact absurd ⟨f, rfl⟩ hwrite
        | _ => rfl
      obtain rfl := Option.some.inj (hsame.symm.trans hr)
      refine ⟨none, ?_, p, q, rfl, hgs, .refl q⟩
      rw [fragments_of_perform hperform fun f hf => hwrite ⟨f, hf⟩]
      exact (List.append_nil _).symm

/-- Wherever a run comes by, the fragments fit together, and the goals lead from their edge to one
where nothing is open. -/
theorem Visited.exists_edge {items : List Item} {s : State} (h : Visited items goals s) :
    ∃ p q, edgeOf s.fragments .blank = some p ∧ edges goals p = some q ∧ q.Serves .blank := by
  induction h with
  | start => exact ⟨.blank, .blank, rfl, rfl, .refl _⟩
  | next visited step_eq ih =>
    obtain ⟨p, q, hp, hq, hserves⟩ := ih
    obtain ⟨f, hfragments, r, q', hr, hq', hserves'⟩ := edges_of_step step_eq hq
    refine ⟨r, q', ?_, hq', hserves'.trans hserves⟩
    rw [hfragments, edgeOf_append, hp]
    exact hr

/-- **The fragments of every run fit together**, and if it finishes, nothing is open behind them. -/
theorem exists_edge (items : List Item) :
    ∃ p, edgeOf (compileItems items).state.fragments .blank = some p ∧
      ∀ s, compileItems items = .ok () s → p.unclosed = [] := by
  rcases compileItems_ends items with
    ⟨t, hrun, hvisited⟩ | ⟨g, gs, t, e, t', hrun, hvisited, hstep⟩
  · obtain ⟨p, q, hp, hq, hserves⟩ := hvisited.exists_edge
    cases hq
    rw [hrun]
    exact ⟨p, hp, fun _ _ => hserves.2⟩
  · obtain ⟨p, q, hp, hq, -⟩ := hvisited.exists_edge
    obtain ⟨r, hr, -⟩ := edges_cons.mp hq
    -- The step that fails may have written a fragment before it failed.
    obtain ⟨f, hfragments, hemits⟩ := written_of_step g t
    rw [hstep] at hfragments
    have hlast : ∃ q, edgeOf t'.fragments .blank = some q := by
      change t'.fragments = _ at hfragments
      rw [hfragments, edgeOf_append, hp]
      cases f with
      | none => exact ⟨p, rfl⟩
      | some f => exact ⟨r, (hemits f rfl).edge hr⟩
    obtain ⟨q, hq⟩ := hlast
    rw [hrun]
    exact ⟨q, hq, nofun⟩

/-! ### The output -/

theorem joined_of_edgeOf (hfs : ∀ f ∈ fs, f.WellFormed) (h : edgeOf fs p = some q) :
    Joined p.ending fs q.ending := by
  induction fs generalizing p with
  | nil =>
    cases h
    exact .nil _
  | cons f fs ih =>
    obtain ⟨hf, hfs⟩ := List.forall_mem_cons.mp hfs
    obtain ⟨r, hr, hrest⟩ := edgeOf_cons.mp h
    obtain ⟨hfits, -, hending⟩ := Fragment.eq_of_edge hr
    exact .cons hfits hf (hending ▸ ih hfs hrest)

theorem nest_of_edgeOf (h : edgeOf fs p = some q) :
    nest p.unclosed (fs.flatMap Fragment.delimiters) = some q.unclosed := by
  induction fs generalizing p with
  | nil =>
    cases h
    rfl
  | cons f fs ih =>
    obtain ⟨r, hr, hrest⟩ := edgeOf_cons.mp h
    obtain ⟨-, hunclosed, -⟩ := Fragment.eq_of_edge hr
    rw [List.flatMap_cons, nest_append, hunclosed]
    exact ih hrest

/-- Joined fragments have their own delimiters. -/
theorem Joined.delimiters_codeOf {e e' : Ending} (h : Joined e fs e') :
    C.delimiters (codeOf fs) = fs.flatMap Fragment.delimiters := by
  rw [C.delimiters, h.tokens_codeOf, cTokens, List.flatMap_assoc]
  rfl

/-- **The delimiters of the output are nested**, whether the text is accepted or not: wherever the
output is cut, each closing one belongs to the one opened last. If the text is accepted, all of them
are closed in the end. -/
theorem delimiters_are_nested (source : Source) :
    let delivery := (compile source).deliver .unlimited
    let text := (compile source).text
    delivery.bytes = (Text.utf8 text).toArray ∧ C.Covered text ∧
      (∀ front back, text = front ++ back →
        ∃ unclosed, nest [] (C.delimiters front) = some unclosed) ∧
      (delivery.failure? = none → nest [] (C.delimiters text) = some []) := by
  intro delivery text
  obtain ⟨p, hedge, hfinished⟩ := exists_edge source.items
  have hjoined := joined_of_edgeOf (wellFormed_of_written source) hedge
  have htext : text = codeOf (compileItems source.items).state.fragments := text_compile source
  have hnest : nest [] (C.delimiters text) = some p.unclosed := by
    rw [htext, hjoined.delimiters_codeOf]
    exact nest_of_edgeOf hedge
  refine ⟨(deliver_unlimited _).2, htext ▸ hjoined.covered, fun front back hcut => ?_,
    fun haccepted => ?_⟩
  · exact C.exists_nest_of_isPrefix hnest (hcut ▸ C.delimiters_isPrefix front back)
  · obtain ⟨s, hs⟩ := Source.accepted_iff_finished.mp haccepted
    rw [hnest, hfinished s hs]

/-- A subscript in a condition and a parenthesis in a text, in a program that is accepted. -/
theorem delimiters_are_nested_subscript :
    let source : Source := ⟨"nested.pl0", "var a size 2; procedure p; writeStr '('; " ++
      "while odd a[a[1]] do begin call p; a[0] := (1) end."⟩
    let text := (compile source).text
    ((compile source).deliver .unlimited).failure? = none ∧
      nest [] (C.delimiters text) = some [] ∧
        ∀ front back, text = front ++ back →
          ∃ unclosed, nest [] (C.delimiters front) = some unclosed := by
  intro source text
  have haccepted : ((compile source).deliver .unlimited).failure? = none := by decide +kernel
  obtain ⟨-, -, hcut, hclosed⟩ := delimiters_are_nested source
  exact ⟨haccepted, hclosed haccepted, hcut⟩

end PlZero
