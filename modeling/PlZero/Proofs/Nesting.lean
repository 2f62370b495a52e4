import Mathlib.Data.List.Infix
import PlZero.CommandLine.FileTree
import PlZero.Proofs.Reports

/-!
# Nesting

A block is entered where at most one other is open, and it is left behind the end of its body. So
wherever a run comes by, the goals that are left close the blocks that are open, one after the other
(`Nesting`), and the depth is the number of these blocks. Names are declared among the declarations
of the program or of one of its procedures, at depth 1 or 2, and so every declaration is at level 0
or 1.

The size of an array is read behind the name of the variable that has been declared for it
(`Visited.newest_variable`). So of what can be wrong about a size there is only one thing left: that
it is 0. Together with the depth this leaves nothing that is the fault of the compiler, and the
command never breaks off (`nesting_of_compile`).
-/

namespace PlZero

open Goal

variable {items : List Item} {source : Source} {g : Goal} {gs goals more : List Goal}
  {s s' : State} {f : Located Failure} {b : Block} {bs : List Block}

/-! ### The depth along a run -/

/-- Only two goals change the depth. -/
theorem depth_of_state_step (henter : g ≠ perform .enter) (hleave : g ≠ perform .leave)
    (s : State) : (step g s).state.depth = s.depth := by
  cases g with
  | expand n =>
    simp only [step]
    split <;> rfl
  | fill slot =>
    simp only [step_fill_eq]
    split
    · rw [Outcome.state_leavesNone, State.depth_fetch, State.depth_write?]
    · rfl
  | perform a =>
    rw [step, Outcome.state_leavesNone]
    cases a with
    | enter => exact absurd rfl henter
    | leave => exact absurd rfl hleave
    | write | closeScope => rfl
    | fetch => exact s.depth_fetch
    | checkArray | checkPlain | checkAtEnd =>
      simp only [Action.perform]
      split <;> rfl

/-- A step that fails leaves the depth. -/
theorem depth_of_failure (h : step g s = .error f s') : s'.depth = s.depth := by
  by_cases hg : g = perform .enter ∨ g = perform .leave
  · rcases hg with rfl | rfl
    all_goals
      simp only [step, Action.perform] at h
      split at h <;> cases h
      rfl
  · obtain ⟨henter, hleave⟩ := not_or.mp hg
    have hsame := depth_of_state_step henter hleave s
    rwa [h] at hsame

/-- What an action does to the depth. -/
theorem depth_of_perform {a : Action} (h : a.perform s = .ok () s') :
    s'.depth + [perform a].count (perform .leave) =
      s.depth + [perform a].count (perform .enter) := by
  cases a with
  | enter =>
    obtain ⟨-, rfl⟩ := perform_enter h
    rfl
  | leave =>
    simp only [Action.perform] at h
    split at h <;> cases h
    next hdepth => simp [hdepth]
  | fetch => simp [(view_of_fetch h).2.1]
  | write | closeScope =>
    cases h
    rfl
  | checkAtEnd | checkArray x | checkPlain x =>
    simp only [Action.perform] at h
    split at h <;> cases h
    rfl

/-- A nonterminal stands for goals that leave as many blocks as they enter. -/
theorem count_of_expansion {n : Nonterminal} {t : Token} (h : n.expansion t = .ok more) :
    more.count (perform .leave) = more.count (perform .enter) := by
  cases n with
  | block b =>
    cases h
    cases b <;> decide
  | term =>
    cases h
    decide
  | statement =>
    cases h
    unfold Nonterminal.statementGoals
    split <;> simp
  | _ =>
    simp only [Nonterminal.expansion] at h
    split at h <;> cases h <;>
      simp [Nonterminal.constantGoals, Nonterminal.variableGoals, Nonterminal.procedureGoals]

theorem depth_of_step (h : step g s = .ok more s') :
    s'.depth + [g].count (perform .leave) + more.count (perform .enter) =
      s.depth + [g].count (perform .enter) + more.count (perform .leave) := by
  cases g with
  | expand n =>
    obtain ⟨hmore, rfl⟩ := step_expand h
    simp [count_of_expansion hmore]
  | fill slot =>
    obtain ⟨rfl, -, -, hdepth, -⟩ := step_fill h
    simp [hdepth]
  | perform a =>
    obtain ⟨rfl, hperform⟩ := step_perform h
    simpa using depth_of_perform hperform

/-- **A run changes the depth as its goals say**: by the blocks that they enter without leaving
them, or leave without entering them. -/
theorem depth_of_run {u : Unit} {t : State} (h : run goals s = .ok u t) :
    t.depth + goals.count (perform .leave) = s.depth + goals.count (perform .enter) := by
  induction goals, s using run_induction with
  | nil s =>
    rw [run_nil] at h
    cases h
    rfl
  | stop g gs s f s' hstep => simp [run_cons, hstep] at h
  | next g gs s more s' hstep ih =>
    rw [run_cons, hstep] at h
    have hrest := ih h
    have hfirst := depth_of_step hstep
    have hcons (a : Goal) : (g :: gs).count a = [g].count a + gs.count a := by
      rw [← List.singleton_append, List.count_append]
    rw [List.count_append, List.count_append] at hrest
    rw [hcons, hcons]
    omega

/-- A block leaves the depth as it was. -/
theorem depth_of_block {u : Unit} {t : State} (h : run [expand (.block b)] s = .ok u t) :
    t.depth = s.depth := by
  simpa using depth_of_run h

/-! ### Open blocks -/

/-- The goal neither enters nor leaves a block. -/
def Goal.keepsBlock : Goal → Bool
  | perform .enter | perform .leave | perform (.write (.bodyEnd _))
  | fill (.written _ (.bodyEnd _)) => false
  | _ => true

/-- The goals write the ends of the bodies of the blocks, the innermost first, and leave each of
them there; they enter and leave no other block. -/
inductive Closing : List Block → List Goal → Prop
  | nil : Closing [] []
  | cons {bs : List Block} {g : Goal} {gs : List Goal} (keeps : g.keepsBlock = true)
    (more : Closing bs gs) : Closing bs (g :: gs)
  | leaving {bs : List Block} {gs : List Goal} (b : Block) (more : Closing bs gs) :
    Closing (b :: bs) (write (.bodyEnd b) :: perform .leave :: gs)

theorem Closing.append (h : Closing bs gs) (hmore : ∀ g ∈ more, g.keepsBlock = true) :
    Closing bs (more ++ gs) := by
  induction more with
  | nil => exact h
  | cons g more ih =>
    obtain ⟨hg, hrest⟩ := List.forall_mem_cons.mp hmore
    exact .cons hg (ih hrest)

theorem keepsBlock_of_expansion {n : Nonterminal} {t : Token} (h : n.expansion t = .ok more)
    (hn : ∀ b, n ≠ .block b) : ∀ g ∈ more, g.keepsBlock = true := by
  cases n with
  | block b => exact absurd rfl (hn b)
  | term =>
    cases h
    decide
  | statement =>
    cases h
    cases t with
    | name x => simp [Nonterminal.statementGoals, Goal.keepsBlock]
    | keyword k => cases k <;> decide
    | _ => simp [Nonterminal.statementGoals]
  | factor | index =>
    simp only [Nonterminal.expansion] at h
    split at h <;> cases h <;> simp [Goal.keepsBlock]
  | _ =>
    simp only [Nonterminal.expansion] at h
    split at h <;> cases h <;> decide

/-- The goals of a block enter it and close it. -/
theorem closing_blockGoals (h : Closing bs gs) (b : Block) :
    ∃ more, Nonterminal.blockGoals b ++ gs = perform .enter :: more ∧ Closing (b :: bs) more := by
  cases b with
  | program =>
    refine ⟨_, rfl, ?_⟩
    iterate 5 refine .cons rfl ?_
    exact .leaving .program h
  | procedure =>
    refine ⟨_, rfl, ?_⟩
    iterate 4 refine .cons rfl ?_
    exact .leaving .procedure h

/-- How the goals that are left and the depth belong together. No more than two blocks are open:
that of the program and, in it, that of a procedure. -/
inductive Nesting : List Goal → Nat → Prop
  | inside {bs : List Block} {goals : List Goal} (closing : Closing bs goals)
    (open_ : bs <:+ [.procedure, .program]) : Nesting goals bs.length
  /-- A block is entered, or refused because two are open. -/
  | entering {b : Block} {bs : List Block} {gs : List Goal} (closing : Closing (b :: bs) gs)
    (open_ : bs <:+ [.procedure, .program]) (outermost : b = .program ↔ bs = []) :
    Nesting (perform .enter :: gs) bs.length
  /-- The end of the body of a block is written. -/
  | leaving {b : Block} {bs : List Block} {gs : List Goal} (closing : Closing bs gs)
    (open_ : b :: bs <:+ [.procedure, .program]) : Nesting (perform .leave :: gs) (b :: bs).length

theorem cases_of_open (h : bs <:+ [.procedure, .program]) :
    bs = [] ∨ bs = [.program] ∨ bs = [.procedure, .program] := by
  simpa [or_comm, or_assoc] using (List.mem_tails _ _).mpr h

theorem Nesting.depth_le {depth : Nat} (h : Nesting goals depth) : depth ≤ 2 := by
  cases h with
  | inside _ open_ | entering _ open_ | leaving _ open_ => exact open_.length_le

/-- The block of the program is the outermost one, and no other block is. -/
theorem Visited.outermost (h : Visited items (expand (.block b) :: gs) s) :
    b = .program ↔ s.depth = 0 := by
  obtain ⟨p, q, hp, hq, -⟩ := h.exists_leadOn
  cases b with
  | program =>
    cases p with
    | ready => exact iff_of_true rfl hp.1
    | _ => cases hq
  | procedure =>
    cases p with
    | headed => exact iff_of_false nofun (ne_of_eq_of_ne hp.1 (by decide))
    | nested => exact iff_of_false nofun (ne_of_eq_of_ne hp (by decide))
    | _ => cases hq

/-- Where no more than one block is open, another one may be. -/
theorem suffix_of_outermost (hopen : bs <:+ [.procedure, .program])
    (houtermost : b = .program ↔ bs = []) (hlength : bs.length ≤ 1) :
    b :: bs <:+ [.procedure, .program] := by
  rcases cases_of_open hopen with rfl | rfl | rfl
  · exact houtermost.mpr rfl ▸ ⟨[.procedure], rfl⟩
  · cases b with
    | program => exact absurd (houtermost.mp rfl) nofun
    | procedure => exact List.suffix_rfl
  · simp at hlength

/-- **Every step keeps to the blocks that are open.** -/
theorem Nesting.step (h : Nesting (g :: gs) s.depth) (hvisited : Visited items (g :: gs) s)
    (hstep : step g s = .ok more s') : Nesting (more ++ gs) s'.depth := by
  generalize hgoals : g :: gs = goals at h
  generalize hdepth : s.depth = depth at h
  cases h with
  | @entering b bs rest closing open_ outermost =>
    obtain ⟨rfl, rfl⟩ := List.cons.inj hgoals
    obtain ⟨rfl, hperform⟩ := step_perform hstep
    obtain ⟨hle, rfl⟩ := perform_enter hperform
    have hknown := suffix_of_outermost open_ outermost (hdepth ▸ hle)
    rw [hdepth]
    exact .inside closing hknown
  | @leaving b bs rest closing open_ =>
    obtain ⟨rfl, rfl⟩ := List.cons.inj hgoals
    obtain ⟨rfl, hperform⟩ := step_perform hstep
    rw [perform_leave hperform hdepth]
    exact .inside closing ((List.suffix_cons b bs).trans open_)
  | @inside bs goals closing open_ =>
    subst hgoals
    have hsame (hone : [g].count (perform .leave) = [g].count (perform .enter))
        (hnone : more.count (perform .enter) = more.count (perform .leave)) :
        s'.depth = bs.length := by
      have hcount := depth_of_step hstep
      omega
    cases closing with
    | leaving b closing =>
      cases hstep
      exact hdepth ▸ .leaving closing open_
    | cons keeps closing =>
      cases g with
      | expand n =>
        obtain ⟨hmore, rfl⟩ := step_expand hstep
        rw [hdepth]
        by_cases hn : ∃ b, n = .block b
        · obtain ⟨b, rfl⟩ := hn
          cases hmore
          obtain ⟨rest, hrest, hclosing⟩ := closing_blockGoals closing b
          rw [hrest]
          refine .entering hclosing open_ ?_
          rw [hvisited.outermost, hdepth, List.length_eq_zero_iff]
        · have hkeeps := keepsBlock_of_expansion hmore fun b hb => hn ⟨b, hb⟩
          exact .inside (closing.append hkeeps) open_
      | fill slot =>
        obtain ⟨rfl, -⟩ := step_fill hstep
        rw [hsame (by simp) rfl]
        exact .inside closing open_
      | perform a =>
        obtain ⟨rfl, -⟩ := step_perform hstep
        rw [hsame (by cases a <;> first | rfl | cases keeps) rfl]
        exact .inside closing open_

/-- **Wherever a run comes by, the goals close the blocks that are open**, whose number is the
depth. -/
theorem Visited.nesting (h : Visited items goals s) : Nesting goals s.depth := by
  induction h with
  | start =>
    have hkeeps : ∀ g ∈ programGoals ++ [], g.keepsBlock = true := by decide
    have hclosing : Closing [] (programGoals ++ []) := Closing.nil.append hkeeps
    exact .inside hclosing List.nil_suffix
  | next visited step_eq ih => exact ih.step visited step_eq

/-- A name is declared in the block of the program at depth 1, or in that of a procedure at depth 2.
-/
theorem Visited.depth_of_declared {kind : Kind}
    (h : Visited items (fill (.declared kind) :: gs) s) :
    s.depth = 1 ∧ Closing [.program] gs ∨ s.depth = 2 ∧ Closing [.procedure, .program] gs := by
  obtain ⟨p, q, hp, hq, -⟩ := h.exists_leadOn
  have hne : s.depth ≠ 0 := by
    cases p with
    | declarations b =>
      rw [hp.1]
      cases b <;> decide
    | _ => cases kind <;> cases hq
  have hnesting := h.nesting
  generalize hgoals : fill (.declared kind) :: gs = goals at hnesting
  generalize hdepth : s.depth = depth at hnesting hne
  cases hnesting with
  | @inside bs goals closing open_ =>
    subst hgoals
    cases closing with
    | cons keeps closing =>
      rcases cases_of_open open_ with rfl | rfl | rfl
      · exact absurd rfl hne
      · exact .inl ⟨rfl, closing⟩
      · exact .inr ⟨rfl, closing⟩
  | entering => cases hgoals
  | leaving => cases hgoals

/-! ### Levels -/

/-- All declarations are at level 0 or 1. -/
def Scope.IsShallow (scope : Scope) : Prop := ∀ d ∈ scope.newestFirst, d.level ≤ 1

/-- A step, whether it fails or not, keeps the levels. -/
theorem Scope.IsShallow.step (h : s.scope.IsShallow) (hdepth : s.depth ≤ 2) (g : Goal) :
    (PlZero.step g s).state.scope.IsShallow := by
  refine holds_of_step h (fun hdeclare => ?_) (fun hsize => ?_) ?_ g
  · obtain ⟨-, -, hscope⟩ := newest_of_declareName hdeclare
    rw [Scope.IsShallow, hscope]
    exact List.forall_mem_cons.mpr ⟨Nat.sub_le_of_le_add hdepth, h⟩
  · obtain ⟨d, older, hnewest, -, hscope⟩ := newestFirst_of_recordSize hsize
    rw [Scope.IsShallow, hnewest] at h
    rw [Scope.IsShallow, hscope]
    exact List.forall_mem_cons.mpr (List.forall_mem_cons.mp h)
  · exact fun d hd => h d ((List.dropWhile_suffix _).subset hd)

theorem Visited.isShallow (h : Visited items goals s) : s.scope.IsShallow := by
  induction h with
  | start => simp [State.start, Scope.initial, Scope.IsShallow, Declaration.main]
  | @next g gs more s s' visited step_eq ih =>
    have hstep := ih.step visited.nesting.depth_le g
    rwa [step_eq] at hstep

/-! ### Sizes -/

/-- What stands in front of the size of an array. -/
theorem Goal.of_precedes_size {g' : Goal} (h : g.precedes g') :
    (g' = expand .variableSize → g = fill (.declared .variable)) ∧ g' ≠ word .size ∧
      (g' = fill .arrayBound → g = word .size) := by
  refine ⟨?_, ?_, ?_⟩ <;> rintro rfl <;> unfold Goal.precedes at h <;> split at h <;>
    simp_all [Goal.opens]

/-- The newest declaration is that of a variable. -/
def Scope.EndsInVariable (scope : Scope) : Prop :=
  ∃ d older, scope.newestFirst = d :: older ∧ d.kind = .variable

/-- Behind the name of a variable. -/
theorem Visited.variable_of_size (h : Visited items (expand .variableSize :: gs) s) :
    s.scope.EndsInVariable := by
  rcases h.first_cases with hstart | ⟨g, s₀, hbefore, hstep⟩ | ⟨n, more, gs₀, -, -, hexpansion⟩
  · cases hstart
  · obtain rfl := (Goal.of_precedes_size ((List.isChain_cons.mp hbefore.chain).1 _ rfl)).1 rfl
    obtain ⟨-, w, hfill, -⟩ := step_fill hstep
    rcases scope_of_fill hfill with
      ⟨hslot, -⟩ | ⟨kind, x, hkind, -, hdeclare⟩ | ⟨_, _, _, hslot, -⟩
    · exact absurd rfl (hslot .variable)
    · cases hkind
      exact ⟨_, _, (newest_of_declareName hdeclare).2.2, rfl⟩
    · cases hslot
  · rcases of_opens_expansion hexpansion rfl with ⟨-, hg⟩ | ⟨x, hg⟩ <;> cases hg

/-- In front of the word that a size begins with. -/
theorem Visited.variable_of_word (h : Visited items (word .size :: gs) s) :
    s.scope.EndsInVariable := by
  rcases h.first_cases with hstart | ⟨g, s₀, hbefore, -⟩ | ⟨n, more, gs₀, -, hvisited, hexpansion⟩
  · cases hstart
  · have hprecedes := Goal.of_precedes_size ((List.isChain_cons.mp hbefore.chain).1 _ rfl)
    exact absurd rfl hprecedes.2.1
  · rcases of_opens_expansion hexpansion rfl with ⟨rfl, -⟩ | ⟨x, hg⟩
    · exact hvisited.variable_of_size
    · cases hg

/-- **Where the size of an array is read, the newest declaration is that of a variable.** -/
theorem Visited.newest_variable (h : Visited items (fill .arrayBound :: gs) s) :
    s.scope.EndsInVariable := by
  rcases h.first_cases with hstart | ⟨g, s₀, hbefore, hstep⟩ | ⟨n, more, gs₀, -, -, hexpansion⟩
  · cases hstart
  · obtain rfl := (Goal.of_precedes_size ((List.isChain_cons.mp hbefore.chain).1 _ rfl)).2.2 rfl
    obtain ⟨-, w, hfill, -⟩ := step_fill hstep
    rcases scope_of_fill hfill with ⟨-, hsame⟩ | ⟨_, _, hslot, -⟩ | ⟨_, _, _, hslot, -⟩
    · rw [hsame]
      exact hbefore.variable_of_word
    · cases hslot
    · cases hslot
  · rcases of_opens_expansion hexpansion rfl with ⟨-, hg⟩ | ⟨x, hg⟩ <;> cases hg

/-- So a number of elements can be wrong in one way only. -/
theorem Visited.size_eq_zero {value : Int} {digits : String} {e : StaticError}
    (h : Visited source.items (fill .arrayBound :: gs) s)
    (hnumber : s.lookahead.value = .number value digits)
    (hsize : s.scope.recordSize value = .error e) : e = .sizeOutOfRange 0 := by
  obtain ⟨⟨x, kind, level, size⟩, older, hnewest, rfl⟩ := h.newest_variable
  have hwell : (Token.number value digits).WellFormed := hnumber ▸ h.wellFormed_lookahead
  simp only [Scope.recordSize_eq, hnewest] at hsize
  split at hsize
  · cases hsize
  · next hrange =>
    cases hsize
    have hle : 0 ≤ value ∧ value ≤ maxNumber := hwell
    have hzero : value = 0 := by omega
    rw [hzero]

/-! ### Failures -/

/-- The failure is one that a program or a destination can bring about: it is no fault of the
compiler, and no size is wrong but that of an array without elements. -/
structure Failure.IsPossible (f : Failure) : Prop where
  isDefect_eq : f.isDefect = false
  ne_sizeOfNonVariable : f ≠ .static .sizeOfNonVariable
  size_eq_zero : ∀ size, f = .static (.sizeOutOfRange size) → size = 0

theorem Visited.isPossible_of_breach {e : StaticError} (h : Visited source.items (g :: gs) s)
    (he : Breach g s e) : (Failure.static e).IsPossible := by
  cases he with
  | name name_eq of_token_or_goal =>
    refine ⟨rfl, fun heq => ?_, fun size heq => ?_⟩ <;> cases heq <;> cases name_eq
  | size goal_eq lookahead_eq recordSize_eq =>
    subst goal_eq
    obtain rfl := h.size_eq_zero lookahead_eq recordSize_eq
    refine ⟨rfl, nofun, ?_⟩
    rintro _ ⟨⟩
    rfl
  | depth => exact ⟨rfl, nofun, nofun⟩

/-- **Whatever stops a run is the fault of the program.** -/
theorem isPossible_of_compileItems (h : compileItems source.items = .error f s) :
    f.value.IsPossible := by
  obtain ⟨g, gs, t, hvisited, hstep⟩ := exists_step_of_failure h
  obtain ⟨line, value⟩ := f
  cases hvisited.stopped hstep with
  | unreadable hasRead value_eq => exact value_eq ▸ ⟨rfl, nofun, nofun⟩
  | refused follows line_eq isRefusal =>
    rcases isRefusal with ⟨e, rfl⟩ | ⟨e, rfl⟩
    · exact ⟨rfl, nofun, nofun⟩
    · exact hvisited.isPossible_of_breach (breach_of_step hstep)

theorem isPossible_of_compile (source : Source) :
    ∀ f ∈ (compile source).failure?, f.value.IsPossible := by
  intro f hf
  rw [compile] at hf
  cases hrun : compileItems source.items with
  | error e s =>
    rw [hrun] at hf
    obtain rfl := Option.some.inj hf
    exact isPossible_of_compileItems hrun
  | ok u s =>
    rw [hrun] at hf
    cases hf

/-- What stops a listing is a place without a token. -/
theorem isPossible_of_listTokens (source : Source) :
    ∀ f ∈ (listTokens source).failure?, f.value.IsPossible := by
  intro f hf
  simp only [Account.failure?, listTokens] at hf
  split at hf
  · next e hending =>
    obtain rfl := Option.some.inj hf
    unfold Listing.ending at hending
    split at hending <;> cases hending
    exact ⟨rfl, by simp, by simp⟩
  · cases hf

/-- **What stops a delivery** is what stops the run by itself, unless the destination does. -/
theorem Account.isPossible_of_deliver {a : Account} (ha : ∀ f ∈ a.failure?, f.value.IsPossible)
    (dest : Destination) : ∀ f ∈ (a.deliver dest).failure?, f.value.IsPossible := by
  have hreceive {d : Delivery} (hd : ∀ f ∈ d.failure?, f.value.IsPossible)
      (piece : Located String) : ∀ f ∈ (d.receive dest piece).failure?, f.value.IsPossible := by
    intro f hf
    simp only [Delivery.receive] at hf
    split at hf
    · exact hd f hf
    · split at hf
      · exact hd f hf
      · split at hf
        · exact hd f hf
        · obtain rfl := Option.some.inj hf
          exact ⟨rfl, by simp, by simp⟩
  have hpieces {d : Delivery} (hd : ∀ f ∈ d.failure?, f.value.IsPossible)
      (pieces : List (Located String)) :
      ∀ f ∈ (pieces.foldl (Delivery.receive dest) d).failure?, f.value.IsPossible := by
    induction pieces generalizing d with
    | nil => exact hd
    | cons piece pieces ih => exact ih (hreceive hd piece)
  intro f hf
  have hall := hpieces (d := .empty) (by simp [Delivery.empty]) a.pieces
  simp only [Account.deliver, Delivery.close] at hf
  split at hf
  · exact hall f hf
  · split at hf
    · next e hending =>
      obtain rfl := Option.some.inj hf
      refine ha e ?_
      rw [Account.failure?, hending]
      rfl
    · obtain ⟨reason, -, rfl⟩ := Option.map_eq_some_iff.mp hf
      exact ⟨rfl, by simp, by simp⟩

/-- **What stops a job** is what stops it by itself, unless the sink does. -/
theorem Account.WrittenBy.isPossible {σ : Type} [Sink σ] {a : Account}
    {job : EStateM (Located Failure) σ Unit} (hjob : a.WrittenBy job)
    (ha : ∀ f ∈ a.failure?, f.value.IsPossible) {out out' : σ} (h : job out = .error f out') :
    f.value.IsPossible := by
  rcases hjob.failure_cases h with ⟨reason, hreason⟩ | hfailure
  · rw [hreason]
    exact ⟨rfl, by simp, by simp⟩
  · exact ha f hfailure

/-! ### The command -/

namespace CommandLine

/-- The account of a job. -/
def Job.account (j : Job) : Account :=
  if j.tokensOnly then listTokens j.source else compile j.source

theorem Job.writtenBy {σ : Type} [Sink σ] (j : Job) :
    j.account.WrittenBy (j.writeTo : EStateM (Located Failure) σ Unit) := by
  unfold account writeTo
  split
  · exact writtenBy_listTokensInto j.source
  · exact writtenBy_compileInto j.source

theorem Job.isPossible_of_account (j : Job) : ∀ f ∈ j.account.failure?, f.value.IsPossible := by
  unfold account
  split
  · exact isPossible_of_listTokens _
  · exact isPossible_of_compile _

theorem Job.isPossible_of_runInto {σ : Type} [Sink σ] (j : Job) (sink : σ) :
    ∀ f ∈ (j.runInto sink).1, f.value.IsPossible := by
  intro f hf
  obtain ⟨b, b', hjob⟩ : ∃ b b' : Buffered σ, j.writeTo b = .error f b' := by
    unfold runInto Buffered.through at hf
    split at hf
    · cases hf
    · next hthrough =>
      obtain rfl := Option.some.inj hf
      split at hthrough <;> cases hthrough
      next hwrite => exact ⟨_, _, hwrite⟩
  exact j.writtenBy.isPossible j.isPossible_of_account hjob

/-- The responses that an interaction can come to, whatever is found in files, and whatever sink a
file is that is written to. -/
inductive Interaction.Ends : Interaction → Response → Prop
  | respond (r : Response) : Ends (.respond r) r
  | read {path : String} {next : Except FileError (Array UInt8) → Interaction} {r : Response}
    (content : Except FileError (Array UInt8)) (more : Ends (next content) r) :
    Ends (.read path next) r
  | refused {path : String} {job : Job}
    {next : Except FileError (Option (Located Failure)) → Interaction} {r : Response}
    (e : FileError) (more : Ends (next (.error e)) r) : Ends (.write path job next) r
  | written {path : String} {job : Job}
    {next : Except FileError (Option (Located Failure)) → Interaction} {r : Response} {σ : Type}
    [Sink σ] (sink : σ) (more : Ends (next (.ok (job.runInto sink).1)) r) :
    Ends (.write path job next) r

/-- In a file tree an interaction comes to one of its responses, to which a device adds nothing but
text. -/
theorem Interaction.exists_ends (i : Interaction) (t : FileTree) :
    ∃ r, i.Ends r ∧ (i.runIn t).1.exit = r.exit := by
  have hdevice (dev : Device) (output : Array UInt8) (r : Response) :
      (dev.addTo output r).exit = r.exit := by
    cases dev <;> rfl
  induction i generalizing t with
  | respond r => exact ⟨r, .respond r, rfl⟩
  | read path next ih =>
    obtain ⟨r, hends, hexit⟩ := ih (t.read path) t
    exact ⟨r, .read _ hends, hexit⟩
  | write path job next ih =>
    simp only [Interaction.runIn]
    split
    · next e _ =>
      obtain ⟨r, hends, hexit⟩ := ih (.error e) t
      exact ⟨r, .refused e hends, hexit⟩
    · next p _ =>
      split
      · next dev _ =>
        obtain ⟨r, hends, hexit⟩ := ih (.ok (job.runInto dev.sink).1) t
        exact ⟨r, .written _ hends, (hdevice _ _ _).trans hexit⟩
      · let sink := (job.runInto LimitedSink.unlimited).2
        obtain ⟨r, hends, hexit⟩ :=
          ih (.ok (job.runInto LimitedSink.unlimited).1) (t.put p sink.taken)
        exact ⟨r, .written _ hends, hexit⟩

theorem exit_ofRun {sourceName : String} {failure? : Option (Located Failure)}
    {output : Array UInt8} (h : ∀ f ∈ failure?, f.value.IsPossible) :
    (Response.ofRun sourceName failure? output).exit ≠ .abort := by
  cases failure? with
  | none => exact nofun
  | some f => simp [Response.ofRun, (h f rfl).isDefect_eq]

theorem Options.exit_of_finish {o : Options} {text : String} {r : Response}
    (h : (o.finish text).Ends r) : r.exit ≠ .abort := by
  simp only [Options.finish] at h
  split at h
  · cases h
    exact exit_ofRun ((o.job text).isPossible_of_runInto _)
  · cases h with
    | refused e more =>
      cases more
      exact nofun
    | written sink more =>
      cases more
      exact exit_ofRun ((o.job text).isPossible_of_runInto sink)

/-- **The command never breaks off.** -/
theorem exit_of_interactionBy {parse : List String → Command} {arguments : List String}
    {r : Response} (h : (interactionBy parse arguments).Ends r) : r.exit ≠ .abort := by
  unfold interactionBy at h
  split at h
  · next o _ _ =>
    unfold Options.start at h
    split at h
    · cases h with
      | read content more =>
        cases content with
        | error e =>
          cases more
          exact nofun
        | ok bytes =>
          dsimp only at more
          split at more
          · exact o.exit_of_finish more
          · cases more
            exact nofun
    · cases h
      exact nofun
  all_goals
    cases h
    exact nofun

end CommandLine

/-! ### The result -/

/-- What holds of the depth and the levels wherever a run comes by. -/
structure WellNested (goals : List Goal) (s : State) : Prop where
  depth_le : s.depth ≤ 2
  level_le : ∀ d ∈ s.scope.newestFirst, d.level ≤ 1
  /-- Names are declared in the block of the program at depth 1, and at depth 2 in that of a
  procedure, and nowhere else. -/
  declared : ∀ kind gs, goals = fill (.declared kind) :: gs →
    s.depth = 1 ∧ Closing [.program] gs ∨ s.depth = 2 ∧ Closing [.procedure, .program] gs

theorem Visited.wellNested (h : Visited items goals s) : WellNested goals s where
  depth_le := h.nesting.depth_le
  level_le := h.isShallow
  declared := fun _ _ hgoals => (hgoals ▸ h).depth_of_declared

/-- Where a run ends, be it because something fails, no more than two blocks are open, and all
declarations are at level 0 or 1. -/
theorem bounds_of_compileItems (items : List Item) :
    (compileItems items).state.depth ≤ 2 ∧ (compileItems items).state.scope.IsShallow := by
  rcases compileItems_ends items with
    ⟨t, hrun, hvisited⟩ | ⟨g, gs, t, e, t', hrun, hvisited, hstep⟩
  · rw [hrun]
    exact ⟨hvisited.nesting.depth_le, hvisited.isShallow⟩
  · have hshallow := hvisited.isShallow.step hvisited.nesting.depth_le g
    rw [hstep] at hshallow
    rw [hrun]
    exact ⟨(depth_of_failure hstep).trans_le hvisited.nesting.depth_le, hshallow⟩

/-- **Blocks are nested as they should be, and nothing that goes wrong is the fault of the
compiler.** Wherever compiling a program comes by, no more than two blocks are open, every
declaration is at level 0 or 1, and names are declared at depth 1 or 2 according to the block; each
block leaves the depth as it was. To whatever destination the output is delivered, and into whatever
sink it is written, what stops it is no defect and no size of what is no variable, and no size is
refused but 0. So the command breaks off with no arguments and no parser for them, whatever it finds
in files and however they take what it writes. -/
theorem nesting_of_compile (source : Source) :
    (∀ goals s, Visited source.items goals s → WellNested goals s) ∧
      (∀ b (s t : State), run [expand (.block b)] s = .ok () t → t.depth = s.depth) ∧
      ((compileItems source.items).state.depth ≤ 2 ∧
        ∀ d ∈ (compileItems source.items).state.scope.newestFirst, d.level ≤ 1) ∧
      (∀ dest, ∀ f ∈ ((compile source).deliver dest).failure?, f.value.IsPossible) ∧
      (∀ (σ : Type) [Sink σ] (out out' : σ) f, compileInto source out = .error f out' →
        f.value.IsPossible) ∧
      (∀ parse arguments r, (CommandLine.interactionBy parse arguments).Ends r →
        r.exit ≠ .abort) ∧
      ∀ parse arguments t,
        ((CommandLine.interactionBy parse arguments).runIn t).1.exit ≠ .abort := by
  refine ⟨fun _ _ h => h.wellNested, fun _ _ _ h => depth_of_block h,
    bounds_of_compileItems source.items, ?_, ?_,
    fun _ _ _ h => CommandLine.exit_of_interactionBy h, ?_⟩
  · exact Account.isPossible_of_deliver (isPossible_of_compile source)
  · intro σ _ out out' f h
    exact (writtenBy_compileInto source).isPossible (isPossible_of_compile source) h
  · intro parse arguments t
    obtain ⟨r, hends, hexit⟩ := (CommandLine.interactionBy parse arguments).exists_ends t
    exact hexit ▸ CommandLine.exit_of_interactionBy hends

end PlZero
