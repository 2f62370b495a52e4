import Mathlib.Data.List.Chain
import PlZero.Proofs.Slots
import PlZero.Proofs.Visits

/-!
# Uses of names

Most slots leave the scope, and the others declare a name or record a size. So what is kept when
this happens, and when the scope is closed, is kept by every step (`holds_of_step`).

Of the slots that use a name only two, those of an assignment and of a factor, leave it to the next
goal to tell whether an index may follow. This goal is always there (`index_of_visited`), and what
opens a bracket stands nowhere else (`Visited.chain`).
-/

namespace PlZero

open Goal
open PlZero.Tree (declareName_eq_ok_iff namesAt)

variable {items : List Item} {g : Goal} {gs goals more : List Goal} {s s' : State}
  {slot : Slot} {x : String} {depth : Nat} {scope scope' : Scope} {f : Option Fragment}

/-! ### The scope -/

/-- What filling a slot does to the scope. -/
theorem scope_of_fill {t : Token} (h : slot.fill depth scope t = .ok (scope', f)) :
    (∀ kind, slot ≠ .declared kind) ∧ scope' = scope ∨
      (∃ kind x, slot = .declared kind ∧ t = .name x ∧
        declareName scope x kind depth = .ok scope') ∨
      ∃ value digits size, slot = .arrayBound ∧ t = .number value digits ∧
        scope.recordSize value = .ok (size, scope') := by
  cases Slot.fills_of_fill h with
  | declared hdeclare => exact .inr (.inl ⟨_, _, rfl, rfl, hdeclare⟩)
  | arrayBound digits hsize => exact .inr (.inr ⟨_, digits, _, rfl, rfl, hsize⟩)
  | used huse =>
    refine .inl ⟨?_, rfl⟩
    rintro kind rfl
    cases huse
  | _ => exact .inl ⟨by simp, rfl⟩

/-- A name is declared at the level of the block that is open, where it is new. -/
theorem newest_of_declareName {kind : Kind} (h : declareName scope x kind depth = .ok scope') :
    isReserved x = false ∧ x ∉ namesAt scope (depth - 1) ∧
      scope'.newestFirst = ⟨x, kind, depth - 1, none⟩ :: scope.newestFirst := by
  have hdepth : declareName scope x kind (depth - 1 + 1) = declareName scope x kind depth := by
    cases depth <;> rfl
  rw [← hdepth, declareName_eq_ok_iff] at h
  obtain ⟨hfree, hnew, rfl⟩ := h
  exact ⟨hfree, hnew, rfl⟩

/-- **What a step does to the scope**, whether it fails or not, and which goals do it: a name is
declared, a size is recorded or the scope is closed, or it is left. -/
theorem scope_of_step (g : Goal) (s : State) :
    (step g s).state.scope = s.scope ∨
      (∃ kind x, g = fill (.declared kind) ∧
        declareName s.scope x kind s.depth = .ok (step g s).state.scope) ∨
      (∃ value size, g = fill .arrayBound ∧
        s.scope.recordSize value = .ok (size, (step g s).state.scope)) ∨
      g = perform .closeScope := by
  cases g with
  | expand n =>
    refine .inl ?_
    simp only [step]
    split <;> rfl
  | fill slot =>
    simp only [step_fill_eq]
    split
    · next scope f hfill =>
      rw [Outcome.state_leavesNone, State.scope_fetch, State.scope_write?]
      rcases scope_of_fill hfill with
        ⟨-, hsame⟩ | ⟨kind, x, rfl, -, hdeclare⟩ | ⟨value, _, size, rfl, -, hsize⟩
      · exact .inl hsame
      · exact .inr (.inl ⟨kind, x, rfl, hdeclare⟩)
      · exact .inr (.inr (.inl ⟨value, size, rfl, hsize⟩))
    · exact .inl rfl
  | perform a =>
    rw [step, Outcome.state_leavesNone]
    cases a with
    | write => exact .inl rfl
    | fetch => exact .inl s.scope_fetch
    | closeScope => exact .inr (.inr (.inr rfl))
    | enter | leave | checkArray | checkPlain | checkAtEnd =>
      refine .inl ?_
      simp only [Action.perform]
      split <;> rfl

/-- What each change of the scope keeps is kept by every step, whether it fails or not. -/
theorem holds_of_step {P : Scope → Prop} (same : P s.scope)
    (declared : ∀ {x kind scope'}, declareName s.scope x kind s.depth = .ok scope' → P scope')
    (sized : ∀ {value size scope'}, s.scope.recordSize value = .ok (size, scope') → P scope')
    (closed : P s.scope.close) (g : Goal) : P (step g s).state.scope := by
  rcases scope_of_step g s with hsame | ⟨_, _, -, hdeclare⟩ | ⟨_, _, -, hsize⟩ | rfl
  · exact hsame ▸ same
  · exact declared hdeclare
  · exact sized hsize
  · exact closed

/-! ### Brackets -/

/-- The C of the fragment begins with a bracket. -/
def Fragment.opens : Fragment → Bool
  | mark .leftBracket | arrayBound _ => true
  | _ => false

/-- What the goal writes first may begin with a bracket. -/
def Goal.opens : Goal → Bool
  | expand (.index _) | expand .variableSize | fill .arrayBound | fill (.skipped (.word .size))
  | perform (.checkArray _) => true
  | fill (.written _ f) | perform (.write f) => f.opens
  | _ => false

/-- The goal `g'` may stand behind `g`. What opens a bracket stands only behind what it belongs to,
and a name that may have an index stands behind no other goal. -/
def Goal.precedes (g g' : Goal) : Bool :=
  match g, g' with
  | fill .target, expand (.index _) | fill .operand, expand (.index _)
  | fill (.declared .variable), expand .variableSize
  | perform (.checkArray _), fill (.written _ (.mark .leftBracket))
  | fill (.skipped (.word .size)), fill .arrayBound => true
  | _, fill .target | _, fill .operand => false
  | _, g' => !g'.opens

/-- What may stand behind a nonterminal may stand behind any goal. -/
theorem Goal.precedes_of_expand {n : Nonterminal} {g' : Goal} (h : (expand n).precedes g')
    (g : Goal) : g.precedes g' := by
  unfold Goal.precedes at h ⊢
  split <;> first | rfl | simp_all

/-- What may stand behind a goal of a nonterminal. -/
theorem chain_expansion {n : Nonterminal} {t : Token} (h : n.expansion t = .ok more) :
    more.IsChain fun g g' => g.precedes g' := by
  cases n with
  | block b =>
    cases h
    cases b <;> decide
  | statement =>
    cases h
    simp only [Nonterminal.statementGoals]
    split <;> simp [Goal.precedes, Goal.opens, Fragment.opens]
  | _ =>
    simp only [Nonterminal.expansion] at h
    repeat' split at h
    all_goals cases h <;>
      simp [Goal.precedes, Goal.opens, Fragment.opens, Nonterminal.constantGoals,
        Nonterminal.variableGoals, Nonterminal.procedureGoals]

/-- A step keeps the order of the goals. -/
theorem chain_of_step (h : step g s = .ok more s')
    (hchain : (g :: gs).IsChain fun g g' => g.precedes g') :
    (more ++ gs).IsChain fun g g' => g.precedes g' := by
  obtain ⟨hhead, htail⟩ := List.isChain_cons.mp hchain
  cases g with
  | fill slot =>
    obtain ⟨rfl, -⟩ := step_fill h
    exact htail
  | perform a =>
    obtain ⟨rfl, -⟩ := step_perform h
    exact htail
  | expand n =>
    obtain ⟨hmore, rfl⟩ := step_expand h
    refine List.isChain_append.mpr ⟨chain_expansion hmore, htail, fun g _ g' hg' => ?_⟩
    exact Goal.precedes_of_expand (hhead g' hg') g

/-- Whatever a run comes by, each of its goals may stand behind the one before. -/
theorem Visited.chain (h : Visited items goals s) : goals.IsChain fun g g' => g.precedes g' := by
  induction h with
  | start => decide
  | next _ step_eq ih => exact chain_of_step step_eq ih

/-- What a nonterminal begins with opens no bracket, unless the nonterminal may. -/
theorem opens_of_expansion {n : Nonterminal} {t : Token} (h : n.expansion t = .ok (g :: more))
    (hn : (expand n).opens = false) : g.opens = false := by
  cases n with
  | index | variableSize => cases hn
  | block b => cases b <;> cases h <;> rfl
  | statement =>
    simp only [Nonterminal.expansion, Nonterminal.statementGoals] at h
    split at h <;> cases h <;> rfl
  | _ =>
    simp only [Nonterminal.expansion] at h
    repeat' split at h
    all_goals cases h <;> rfl

/-- A nonterminal begins with what opens a bracket only if it is a size or an index. -/
theorem of_opens_expansion {n : Nonterminal} {t : Token} (h : n.expansion t = .ok (g :: more))
    (hg : g.opens) : n = .variableSize ∧ g = word .size ∨ ∃ x, g = perform (.checkArray x) := by
  cases hn : (expand n).opens with
  | false =>
    rw [opens_of_expansion h hn] at hg
    cases hg
  | true =>
    cases n with
    | variableSize =>
      simp only [Nonterminal.expansion] at h
      split at h <;> cases h
      exact .inl ⟨rfl, rfl⟩
    | index x =>
      simp only [Nonterminal.expansion] at h
      split at h <;> cases h
      · exact .inr ⟨x, rfl⟩
      · cases hg
    | _ => cases hn

/-- What may open a bracket stands behind a goal that writes a name, or that may itself. -/
theorem Goal.opens_of_precedes {g g' : Goal} (h : g.precedes g') (hg : g.opens = false) :
    g'.opens = false ∨ g = fill .target ∨ g = fill .operand ∨ g = fill (.declared .variable) := by
  unfold Goal.precedes at h
  split at h
  case h_1 | h_2 | h_3 => simp
  case h_4 | h_5 => cases hg
  case h_6 | h_7 => exact .inl rfl
  case h_8 => exact .inl (by simpa using h)

/-! ### The index behind a name -/

/-- A nonterminal that begins with such a name goes on with its index. -/
theorem index_of_expansion {n : Nonterminal}
    (h : n.expansion (.name x) = .ok (fill slot :: more))
    (hslot : slot = .target ∨ slot = .operand) : ∃ more', more = expand (.index x) :: more' := by
  cases n with
  | block b => cases b <;> cases h
  | statement | factor =>
    cases h
    exact ⟨_, rfl⟩
  | moreConstants | moreVariables | moreStatements =>
    cases h
    rcases hslot with hslot | hslot <;> cases hslot
  | _ => cases h

/-- **Behind a name that may have an index, the next goal is this index.** -/
theorem index_of_visited (h : Visited items (fill slot :: gs) s)
    (hslot : slot = .target ∨ slot = .operand) (hname : s.lookahead.value = .name x) :
    ∃ gs', gs = expand (.index x) :: gs' := by
  rcases h.first_cases with hstart | ⟨g, s₀, hbefore, -⟩ | ⟨n, more, gs₀, rfl, -, hexpansion⟩
  · cases hstart
  · -- Such a slot stands behind no other goal.
    have hhead := (List.isChain_cons.mp hbefore.chain).1 _ rfl
    rcases hslot with rfl | rfl <;> simp [Goal.precedes] at hhead
  · rw [hname] at hexpansion
    obtain ⟨more', rfl⟩ := index_of_expansion hexpansion hslot
    exact ⟨more' ++ gs₀, rfl⟩

end PlZero
