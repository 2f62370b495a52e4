import Mathlib.Data.List.Infix
import PlZero.Proofs.Positions
import PlZero.Proofs.Reports

/-!
# Where a name is to blame

A rule about a name is broken by one of its occurrences, and the failure should stand on the line of
it. Most rules are looked at before the name is taken (`Source.Refuses`), when its line is that of
the token that is looked at. But whether an index may follow the name of an assignment or of a
factor is looked at behind it (`Source.Misuses`), so the failure stands on the line of the next
token, which may be another one (`line_of_offence`).
-/

namespace PlZero

open Goal

variable {items : List Item} {source : Source} {g : Goal} {gs goals more : List Goal}
  {s s' : State} {slot : Slot} {depth k : Nat} {scope : Scope} {x : String} {e : StaticError}
  {line : Line}

/-! ### Rules -/

/-- What is wrong with a name of a kind that does not allow this use. -/
def Use.refusal (x : String) : Use → StaticError
  | target => .notVariable x
  | operand => .isProcedure x
  | callee => .notProcedure x

/-- The name `x` breaks a rule in the slot where `depth` blocks are open: it may not be declared
there, or it does not mean what the slot asks for. -/
inductive Slot.Breaks (slot : Slot) (depth : Nat) (scope : Scope) (x : String) : StaticError → Prop
  | reserved {kind : Kind} (slot_eq : slot = .declared kind) (isReserved_eq : isReserved x = true) :
    slot.Breaks depth scope x (.reserved x)
  | duplicate {kind : Kind} {d : Declaration} (slot_eq : slot = .declared kind)
    (mem : d ∈ scope.newestFirst) (name_eq : d.name = x) (level_eq : d.level = depth - 1) :
    slot.Breaks depth scope x (.duplicate x)
  | undefined {use : Use} (use_eq : slot.use? = some use) (lookup_eq : scope.lookup x = none) :
    slot.Breaks depth scope x (.undefined x)
  | kind {use : Use} {d : Declaration} (use_eq : slot.use? = some use)
    (lookup_eq : scope.lookup x = some d) (not_allows : ¬ use.Allows d.kind) :
    slot.Breaks depth scope x (use.refusal x)
  | notArray {d : Declaration} (slot_eq : slot = .printedText)
    (lookup_eq : scope.lookup x = some d) (size_eq : d.size = none) :
    slot.Breaks depth scope x (.notArray x)
  | arrayWithoutIndex {d : Declaration}
    (slot_eq : ∃ form, slot = .printed form ∨ slot = .stored form)
    (lookup_eq : scope.lookup x = some d) (size_ne : d.size ≠ none) :
    slot.Breaks depth scope x (.arrayWithoutIndex x)

/-- The name `x` breaks a rule because of the token behind it: an index follows what is no array, or
none follows an array. -/
inductive IndexBreaks (scope : Scope) (x : String) (next : Token) : StaticError → Prop
  | notArray {d : Declaration} (lookup_eq : scope.lookup x = some d) (size_eq : d.size = none)
    (next_eq : next = .mark .leftBracket) : IndexBreaks scope x next (.notArray x)
  | arrayWithoutIndex {d : Declaration} (lookup_eq : scope.lookup x = some d)
    (size_ne : d.size ≠ none) (next_ne : next ≠ .mark .leftBracket) :
    IndexBreaks scope x next (.arrayWithoutIndex x)

theorem resolve_error {use : Use} (h : scope.resolve x use = .error e) :
    scope.lookup x = none ∧ e = .undefined x ∨
      ∃ d, scope.lookup x = some d ∧ ¬ use.Allows d.kind ∧ e = use.refusal x := by
  cases hlookup : scope.lookup x with
  | none =>
    simp only [Scope.resolve, hlookup] at h
    cases h
    exact .inl ⟨rfl, rfl⟩
  | some d =>
    refine .inr ⟨d, rfl, ?_⟩
    simp only [Scope.resolve, hlookup] at h
    cases use <;> cases hkind : d.kind <;> rw [hkind] at h <;> cases h <;>
      exact ⟨by simp [Use.Allows], rfl⟩

theorem checkPlain_error (h : scope.checkPlain x = .error e) :
    ∃ d, scope.lookup x = some d ∧ d.size ≠ none ∧ e = .arrayWithoutIndex x := by
  simp only [Scope.checkPlain] at h
  split at h <;> cases h
  next hlookup => exact ⟨_, hlookup, Option.some_ne_none _, rfl⟩

theorem arraySize_error (h : scope.arraySize x = .error e) :
    scope.lookup x = none ∧ e = .undefined x ∨
      ∃ d, scope.lookup x = some d ∧ d.size = none ∧ e = .notArray x := by
  simp only [Scope.arraySize] at h
  split at h
  · next hlookup =>
    cases h
    exact .inl ⟨hlookup, rfl⟩
  · next d hlookup =>
    split at h <;> cases h
    next hsize => exact .inr ⟨d, hlookup, hsize, rfl⟩

theorem declareName_error {kind : Kind} (h : declareName scope x kind depth = .error e) :
    (Slot.declared kind).Breaks depth scope x e := by
  simp only [declareName, Scope.declare_eq] at h
  split at h
  · next hreserved =>
    cases h
    exact .reserved rfl hreserved
  · split at h <;> cases h
    next hany =>
      obtain ⟨d, hd, hsame⟩ := List.any_eq_true.mp hany
      obtain ⟨hname, hlevel⟩ : d.name = x ∧ d.level = depth - 1 := by simpa using hsame
      exact .duplicate rfl hd hname hlevel

/-- What a slot refuses by a rule about names breaks this rule in it. -/
theorem breaks_of_fill (h : slot.fill depth scope (.name x) = .error (.static e)) :
    slot.Breaks depth scope x e := by
  cases Slot.refuses_of_static h with
  | declared hdeclare => exact declareName_error hdeclare
  | unresolved huse hno =>
    rcases resolve_error hno with ⟨hnone, rfl⟩ | ⟨d, hd, hnot, rfl⟩
    · exact .undefined huse hnone
    · exact .kind huse hd hnot
  | array hslot hplain =>
    obtain ⟨d, hd, hsize, rfl⟩ := checkPlain_error hplain
    exact .arrayWithoutIndex hslot hd hsize
  | noArray hsize =>
    rcases arraySize_error hsize with ⟨hnone, rfl⟩ | ⟨d, hd, hnone, rfl⟩
    · exact .undefined rfl hnone
    · exact .notArray rfl hd hnone

/-! ### The goals of checks -/

/-- The goal looks at what stands behind a name. -/
def Goal.isCheck : Goal → Bool
  | perform (.checkArray _) | perform (.checkPlain _) => true
  | _ => false

/-- Only an index begins with such a check, and no nonterminal goes on with one. -/
theorem isCheck_of_expansion {n : Nonterminal} {t : Token} (h : n.expansion t = .ok more) :
    ∀ g ∈ more.tail, g.isCheck = false := by
  cases n with
  | block b =>
    cases h
    cases b <;> decide
  | term =>
    cases h
    decide
  | statement =>
    cases h
    cases t with
    | name x => simp [Nonterminal.statementGoals, Goal.isCheck]
    | keyword k => cases k <;> decide
    | _ => simp [Nonterminal.statementGoals]
  | factor | index =>
    simp only [Nonterminal.expansion] at h
    split at h <;> cases h <;> simp [Goal.isCheck]
  | _ =>
    simp only [Nonterminal.expansion] at h
    split at h <;> cases h <;> decide

/-- **A check is left only as the first goal.** -/
theorem Visited.isCheck_of_mem_tail (h : Visited items goals s) :
    ∀ g ∈ goals.tail, g.isCheck = false := by
  induction h with
  | start => decide
  | @next g gs more s s' visited step_eq ih =>
    cases g with
    | fill slot =>
      obtain ⟨rfl, -⟩ := step_fill step_eq
      exact fun g hg => ih g (List.mem_of_mem_tail hg)
    | perform a =>
      obtain ⟨rfl, -⟩ := step_perform step_eq
      exact fun g hg => ih g (List.mem_of_mem_tail hg)
    | expand n =>
      obtain ⟨hexpansion, -⟩ := step_expand step_eq
      cases more with
      | nil => exact fun g hg => ih g (List.mem_of_mem_tail hg)
      | cons first more =>
        exact List.forall_mem_append.mpr ⟨isCheck_of_expansion hexpansion, ih⟩

/-- A check is what an index begins with. -/
theorem index_of_check {n : Nonterminal} {t : Token} (h : n.expansion t = .ok (g :: more))
    (hg : g.isCheck) : ∃ x, n = .index x ∧
      (g = perform (.checkArray x) ∧ t = .mark .leftBracket ∨
        g = perform (.checkPlain x) ∧ t ≠ .mark .leftBracket) := by
  cases n with
  | index x =>
    refine ⟨x, rfl, ?_⟩
    simp only [Nonterminal.expansion] at h
    split at h
    · cases h
      exact .inl ⟨rfl, rfl⟩
    · next hnot =>
      cases h
      exact .inr ⟨rfl, hnot⟩
  | block b => cases b <;> cases h <;> cases hg
  | statement =>
    simp only [Nonterminal.expansion, Nonterminal.statementGoals] at h
    split at h <;> cases h <;> cases hg
  | _ =>
    simp only [Nonterminal.expansion] at h
    repeat' split at h
    all_goals cases h <;> cases hg

/-- **A check is made right behind the place where the index is looked for.** -/
theorem Visited.exists_index (h : Visited items (g :: gs) s) (hg : g.isCheck) :
    ∃ x gs', Visited items (expand (.index x) :: gs') s ∧
      (g = perform (.checkArray x) ∧ s.lookahead.value = .mark .leftBracket ∨
        g = perform (.checkPlain x) ∧ s.lookahead.value ≠ .mark .leftBracket) := by
  rcases h.first_cases with hstart | ⟨g₀, s₀, hbefore, -⟩ | ⟨n, more, gs₀, -, hvisited, hexpansion⟩
  · cases hstart
    cases hg
  · rw [hbefore.isCheck_of_mem_tail g List.mem_cons_self] at hg
    cases hg
  · obtain ⟨x, rfl, hcheck⟩ := index_of_check hexpansion hg
    exact ⟨x, gs₀, hvisited, hcheck⟩

/-! ### The name in front of an index -/

/-- An index stands only behind the name of an assignment or of a factor. -/
theorem Goal.of_precedes_index (h : g.precedes (expand (.index x))) :
    g = fill .target ∨ g = fill .operand := by
  unfold Goal.precedes at h
  split at h <;> simp_all [Goal.opens]

/-- A nonterminal that goes on with an index begins with the name. -/
theorem name_of_index {n : Nonterminal} {t : Token}
    (h : n.expansion t = .ok (fill slot :: expand (.index x) :: more)) : t = .name x := by
  cases n with
  | block b => cases b <;> cases h
  | statement =>
    simp only [Nonterminal.expansion, Nonterminal.statementGoals] at h
    split at h <;> cases h
    rfl
  | factor =>
    simp only [Nonterminal.expansion] at h
    split at h <;> cases h
    rfl
  | _ =>
    simp only [Nonterminal.expansion] at h
    repeat' split at h
    all_goals cases h

/-- A slot in front of an index is filled by the name that may have the index. -/
theorem Visited.name_of_slot (h : Visited items (fill slot :: expand (.index x) :: gs) s) :
    s.lookahead.value = .name x := by
  have hslot := Goal.of_precedes_index ((List.isChain_cons.mp h.chain).1 _ rfl)
  rcases h.first_cases with hstart | ⟨g, s₀, hbefore, -⟩ | ⟨n, more, gs₀, hgs, hvisited, hexpansion⟩
  · cases hstart
  · -- Such a slot stands behind no other goal.
    have hhead := (List.isChain_cons.mp hbefore.chain).1 _ rfl
    rcases hslot with hslot | hslot <;> cases hslot <;> simp [Goal.precedes] at hhead
  · cases more with
    | nil =>
      -- No index stands behind a nonterminal.
      obtain rfl : expand (.index x) :: gs = gs₀ := hgs
      have hhead := Goal.of_precedes_index ((List.isChain_cons.mp hvisited.chain).1 _ rfl)
      rcases hhead with hhead | hhead <;> cases hhead
    | cons second more =>
      obtain ⟨rfl, rfl⟩ := List.cons.inj hgs
      exact name_of_index hexpansion

/-- **In front of an index the name has been taken**, as that of an assignment or of a factor. -/
theorem Visited.exists_name (h : Visited items (expand (.index x) :: gs) s) :
    ∃ slot s₀, (slot = .target ∨ slot = .operand) ∧
      Visited items (fill slot :: expand (.index x) :: gs) s₀ ∧
        step (fill slot) s₀ = .ok [] s := by
  rcases h.first_cases with hstart | ⟨g, s₀, hbefore, hstep⟩ | ⟨n, more, gs₀, -, -, hexpansion⟩
  · cases hstart
  · rcases Goal.of_precedes_index ((List.isChain_cons.mp hbefore.chain).1 _ rfl) with rfl | rfl
    · exact ⟨.target, s₀, .inl rfl, hbefore, hstep⟩
    · exact ⟨.operand, s₀, .inr rfl, hbefore, hstep⟩
  · rcases of_opens_expansion hexpansion rfl with ⟨-, hg⟩ | ⟨x, hg⟩ <;> cases hg

/-! ### Occurrences -/

/-- The name `x` is the token with the number `k`, and it breaks the rule in its slot. -/
def Source.Refuses (source : Source) (k : Nat) (x : String) (e : StaticError) : Prop :=
  ∃ slot gs s, Visited source.items (fill slot :: gs) s ∧ s.fetched = k + 1 ∧
    s.lookahead.value = .name x ∧ slot.Breaks s.depth s.scope x e

/-- The name `x` is the token with the number `k`, that of an assignment or of a factor, and it
breaks the rule because of the token behind it. -/
def Source.Misuses (source : Source) (k : Nat) (x : String) (e : StaticError) : Prop :=
  ∃ slot gs s line next, (slot = .target ∨ slot = .operand) ∧
    Visited source.items (fill slot :: expand (.index x) :: gs) s ∧ s.fetched = k + 1 ∧
      s.lookahead.value = .name x ∧ source.items[k + 1]? = some ⟨line, .ok next⟩ ∧
        IndexBreaks s.scope x next e

/-- Behind the first token, the state looks at the item fetched last. -/
theorem Visited.follows (h : Visited source.items (g :: gs) s) (hwrite : g ≠ write .preamble)
    (hfetch : g ≠ perform .fetch) : s.Follows source.items := by
  have hfetching := h.fetching
  generalize hgoals : g :: gs = goals at hfetching
  cases hfetching with
  | blank => exact absurd (List.cons.inj hgoals).1 hwrite
  | ready => exact absurd (List.cons.inj hgoals).1 hfetch
  | begun follows bounded fetch_not_mem => exact follows

/-- The token that is looked at is the item with the number that has been fetched. -/
theorem State.Follows.exists_number (h : s.Follows items) :
    ∃ k, s.fetched = k + 1 ∧
      items[k]? = some ⟨s.lookahead.line, .ok s.lookahead.value⟩ := by
  obtain ⟨before, hitems, hlength⟩ := h
  refine ⟨before.length, hlength, ?_⟩
  rw [hitems, List.getElem?_append_right (Nat.le_refl _), Nat.sub_self]
  rfl

theorem fetched_of_fill (h : step (fill slot) s = .ok more s') : s'.fetched = s.fetched + 1 := by
  rw [step_fill_eq] at h
  split at h
  · next scope' f hfill =>
    have hfetched := State.fetched_fetch (State.write? { s with scope := scope' } f)
    cases hfetch : State.fetch (State.write? { s with scope := scope' } f) with
    | error f' t => rw [hfetch] at h; cases h
    | ok u t =>
      rw [hfetch] at h hfetched
      cases h
      cases f <;> exact hfetched
  · cases h

/-- **How a step breaks a rule about a name**: the token that fills a slot does, or a check finds
that the name in front does. -/
theorem offence_of_step (h : step g s = .error ⟨line, .static e⟩ s') (hname : e.name? = some x) :
    line = s.lookahead.line ∧
      ((∃ slot, g = fill slot ∧ s.lookahead.value = .name x ∧ slot.Breaks s.depth s.scope x e) ∨
        g = perform (.checkArray x) ∧ s.scope.arraySize x = .error e ∨
          g = perform (.checkPlain x) ∧ s.scope.checkPlain x = .error e) := by
  have hsame {y : String} (hy : e.name? = some y) : y = x := Option.some.inj (hy.symm.trans hname)
  obtain ⟨rfl, ⟨slot, rfl, hfill⟩ | ⟨-, rfl⟩ | ⟨y, rfl, hsize⟩ | ⟨y, rfl, hplain⟩⟩ := step_static h
  · rcases breach_of_fill hfill with ⟨y, hy, htoken⟩ | ⟨value, digits, -, -, hsize⟩
    · obtain rfl := hsame hy
      rw [htoken] at hfill
      exact ⟨rfl, .inl ⟨slot, rfl, htoken, breaks_of_fill hfill⟩⟩
    · cases (name_of_recordSize hsize).symm.trans hname
  · cases hname
  · obtain rfl := hsame (name_of_arraySize hsize)
    exact ⟨rfl, .inr (.inl ⟨rfl, hsize⟩)⟩
  · obtain rfl := hsame (name_of_checkPlain hplain)
    exact ⟨rfl, .inr (.inr ⟨rfl, hplain⟩)⟩

/-- The check that an index begins with fails because of the name in front. -/
theorem indexBreaks_of_check {y : String} {next : Token} {d : Declaration}
    (hlookup : scope.lookup y = some d)
    (hindex : g = perform (.checkArray y) ∧ next = .mark .leftBracket ∨
      g = perform (.checkPlain y) ∧ next ≠ .mark .leftBracket)
    (hcheck : g = perform (.checkArray x) ∧ scope.arraySize x = .error e ∨
      g = perform (.checkPlain x) ∧ scope.checkPlain x = .error e) :
    x = y ∧ IndexBreaks scope y next e := by
  rcases hcheck with ⟨rfl, hsize⟩ | ⟨rfl, hplain⟩
  · rcases hindex with ⟨heq, hnext⟩ | ⟨heq, -⟩ <;> cases heq
    rcases arraySize_error hsize with ⟨hnone, -⟩ | ⟨d, hd, hplain, rfl⟩
    · cases hnone.symm.trans hlookup
    · exact ⟨rfl, .notArray hd hplain hnext⟩
  · rcases hindex with ⟨heq, -⟩ | ⟨heq, hnext⟩ <;> cases heq
    obtain ⟨d, hd, hsize, rfl⟩ := checkPlain_error hplain
    exact ⟨rfl, .arrayWithoutIndex hd hsize hnext⟩

/-- **A check that fails blames the name in front**, but where it is made the next token is looked
at. -/
theorem Visited.misuses_of_check (h : Visited source.items (g :: gs) s)
    (hcheck : g = perform (.checkArray x) ∧ s.scope.arraySize x = .error e ∨
      g = perform (.checkPlain x) ∧ s.scope.checkPlain x = .error e) :
    ∃ k line, source.Misuses k x e ∧ source.items[k]? = some ⟨line, .ok (.name x)⟩ ∧
      source.items[k + 1]? = some ⟨s.lookahead.line, .ok s.lookahead.value⟩ := by
  have hg : g.isCheck := by
    rcases hcheck with ⟨rfl, -⟩ | ⟨rfl, -⟩ <;> rfl
  obtain ⟨y, gs', hvisited, hindex⟩ := h.exists_index hg
  obtain ⟨slot, s₀, hslot, hbefore, hstep⟩ := hvisited.exists_name
  have htoken := hbefore.name_of_slot
  obtain ⟨k, hk, hitem⟩ := (hbefore.follows nofun nofun).exists_number
  obtain ⟨k', hk', hnext⟩ := (hvisited.follows nofun nofun).exists_number
  obtain rfl : k' = k + 1 := by
    have hfetched := fetched_of_fill hstep
    omega
  -- Taking the name has found what it means, and has left the scope.
  obtain ⟨-, f, hfill, -⟩ := step_fill hstep
  rw [htoken] at hfill hitem
  obtain ⟨use, huse⟩ : ∃ use, slot.use? = some use := by
    rcases hslot with rfl | rfl <;> exact ⟨_, rfl⟩
  obtain ⟨d, hlookup, -, -, hscope, -⟩ := fill_name huse hfill
  rw [hscope] at hcheck
  obtain ⟨rfl, hbreaks⟩ := indexBreaks_of_check hlookup hindex hcheck
  exact ⟨k, _, ⟨slot, gs', s₀, _, _, hslot, hbefore, hk, htoken, hnext, hbreaks⟩, hitem, hnext⟩

/-! ### The result -/

/-- **A failure that names something stands on the line of the occurrence that breaks the rule, or,
if it depends on the token behind this occurrence, on the line of that token.** The occurrence is a
token of the text, which begins behind the text `front`. Either it is what fills a slot in which it
is not allowed; or it is the name of an assignment or of a factor, and it is an array without an
index, or no array and has one. -/
theorem line_of_offence (source : Source) (line : Line) (e : StaticError) (x : String)
    (hname : e.name? = some x)
    (hfailure : ((compile source).deliver .unlimited).failure? = some ⟨line, .static e⟩) :
    ∃ k front, source.Begins k front ∧ front ++ x.toList <+: source.text.toList ∧
      (source.Refuses k x e ∧ line = lineBehind front ∨
        source.Misuses k x e ∧
          ∃ front', source.Begins (k + 1) front' ∧ line = lineBehind front') := by
  obtain ⟨t, hrun⟩ := Source.failure_eq_some_iff.mp hfailure
  obtain ⟨g, gs, s, hvisited, hstep⟩ := exists_step_of_failure hrun
  obtain ⟨rfl, ⟨slot, rfl, htoken, hbreaks⟩ | hcheck⟩ := offence_of_step hstep hname
  · obtain ⟨k, hk, hitem⟩ := (hvisited.follows nofun nofun).exists_number
    rw [htoken] at hitem
    obtain ⟨front, hbegins, hline⟩ := Source.exists_begins hitem
    exact ⟨k, front, hbegins, hbegins.name_isPrefix hitem,
      .inl ⟨⟨slot, gs, s, hvisited, hk, htoken, hbreaks⟩, hline⟩⟩
  · obtain ⟨k, line, hmisuses, hitem, hnext⟩ := hvisited.misuses_of_check hcheck
    obtain ⟨front, hbegins, -⟩ := Source.exists_begins hitem
    exact ⟨k, front, hbegins, hbegins.name_isPrefix hitem,
      .inr ⟨hmisuses, Source.exists_begins hnext⟩⟩

/-- An array without an index. Its name stands on the first line only, but the failure on the second
one, on which the next token is. -/
theorem line_of_offence_split :
    let source : Source := ⟨"split.pl0", "var a size 3; a\n:= 1."⟩
    let e : StaticError := .arrayWithoutIndex "a"
    e.name? = some "a" ∧
      ((compile source).deliver .unlimited).failure? = some ⟨2, .static e⟩ ∧
      (∀ front, front ++ "a".toList <+: source.text.toList → lineBehind front = 1) ∧
      ∃ k, source.Misuses k "a" e := by
  let source : Source := ⟨"split.pl0", "var a size 3; a\n:= 1."⟩
  let e : StaticError := .arrayWithoutIndex "a"
  have hfailure : ((compile source).deliver .unlimited).failure? = some ⟨2, .static e⟩ := by
    decide +kernel
  have hinits : ∀ p ∈ source.text.toList.inits, p.getLast? = some 'a' →
      lineBehind p.dropLast = 1 := by
    decide +kernel
  have hfirst (front : List Char) (h : front ++ "a".toList <+: source.text.toList) :
      lineBehind front = 1 := by
    have hline := hinits _ ((List.mem_inits _ _).mpr h) List.getLast?_concat
    rwa [show "a".toList = ['a'] from rfl, List.dropLast_concat] at hline
  obtain ⟨k, front, -, hfront, hcases⟩ := line_of_offence source 2 e "a" rfl hfailure
  rcases hcases with ⟨-, hline⟩ | ⟨hmisuses, -⟩
  · cases hline.trans (hfirst front hfront)
  · exact ⟨rfl, hfailure, hfirst, k, hmisuses⟩

end PlZero
