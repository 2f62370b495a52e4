import PlZero.Proofs.Histories
import PlZero.Proofs.Nesting

/-!
# What a procedure leaves behind

A block does not remember the scope in which it was entered. When a procedure ends, the declarations
behind the newest procedure are dropped instead. This gives back the scope behind the name of the
procedure, because its body can only have declared constants and variables: a procedure in it would
have been refused where its block begins (`not_run_procedure`).

So a procedure in the block of the program adds its own name to the scope and nothing else
(`scope_of_procedure`). Statements, conditions and expressions do not even change the scope on the
way, whether they come to their end or not (`state_of_uses`).
-/

namespace PlZero

open Goal Nonterminal

variable {items : List Item} {g : Goal} {gs goals more : List Goal} {s t : State}
  {n : Nonterminal} {tok : Token} {base : Scope}

/-! ### How far goals reach -/

/-- How far a goal reaches: to uses of names (0), to declarations of constants and variables (1), or
to procedures and blocks (2). -/
def Goal.reach : Goal → Nat
  | expand (.block _) | expand .procedureList | fill (.declared .procedure) | perform .enter
  | perform .leave | perform .closeScope => 2
  | expand .constantList | expand .moreConstants | expand .variableList | expand .variableSize
  | expand .moreVariables | fill (.declared _) | fill .arrayBound => 1
  | _ => 0

/-- A nonterminal stands for goals that reach no further than itself. -/
theorem reach_of_expansion (h : n.expansion tok = .ok more) :
    ∀ g ∈ more, g.reach ≤ (expand n).reach := by
  cases n with
  | block b =>
    cases h
    cases b <;> decide
  | term =>
    cases h
    decide
  | statement =>
    cases h
    cases tok with
    | name x => simp [statementGoals, reach]
    | keyword k => cases k <;> decide
    | _ => simp [statementGoals]
  | factor | index =>
    simp only [expansion] at h
    split at h <;> cases h <;> simp [reach]
  | _ =>
    simp only [expansion] at h
    split at h <;> cases h <;> decide

/-- **What every step keeps is kept by a run**, whether it comes to its end or not, as long as the
steps are those of goals that reach no further than the goals at the start. -/
theorem state_of_run {P : State → Prop} {k : Nat}
    (hstep : ∀ g s, g.reach ≤ k → P s → P (step g s).state) (hgoals : ∀ g ∈ goals, g.reach ≤ k)
    (hs : P s) : P (run goals s).state := by
  induction goals, s using run_induction with
  | nil s =>
    rw [run_nil]
    exact hs
  | stop g gs s f s' heq =>
    have hkept := hstep g s (hgoals g (List.mem_cons_self ..)) hs
    rw [heq] at hkept
    rw [run_cons, heq]
    exact hkept
  | next g gs s more s' heq ih =>
    obtain ⟨hg, hgs⟩ := List.forall_mem_cons.mp hgoals
    have hkept := hstep g s hg hs
    rw [heq] at hkept
    rw [run_cons, heq]
    refine ih (List.forall_mem_append.mpr ⟨fun g' hg' => ?_, hgs⟩) hkept
    cases g with
    | expand n => exact (reach_of_expansion (step_expand heq).1 g' hg').trans hg
    | fill slot => simp [(step_fill heq).1] at hg'
    | perform a => simp [(step_perform heq).1] at hg'

/-- A goal that reaches no further than to declarations does not change the depth. -/
theorem depth_of_reach (hg : g.reach ≤ 1) (s : State) : (step g s).state.depth = s.depth := by
  refine depth_of_state_step ?_ ?_ s <;> rintro rfl <;> simp [reach] at hg

/-- **What only uses names leaves the scope and the depth alone**, whether it comes to its end or
not. -/
theorem state_of_uses (hgoals : ∀ g ∈ goals, g.reach = 0) (s : State) :
    (run goals s).state.scope = s.scope ∧ (run goals s).state.depth = s.depth := by
  refine state_of_run (k := 0) (P := fun t => t.scope = s.scope ∧ t.depth = s.depth)
    (fun g t hg ht => ?_) (fun g hg => (hgoals g hg).le) ⟨rfl, rfl⟩
  rw [depth_of_reach (Nat.le_succ_of_le hg)]
  refine ⟨?_, ht.2⟩
  rcases scope_of_step g t with hsame | ⟨kind, x, rfl, -⟩ | ⟨_, _, rfl, -⟩ | rfl
  · exact hsame.trans ht.1
  · cases kind <;> simp [reach] at hg
  · simp [reach] at hg
  · simp [reach] at hg

theorem scope_of_uses (hgoals : ∀ g ∈ goals, g.reach = 0) (h : run goals s = .ok () t) :
    t.scope = s.scope ∧ t.depth = s.depth := by
  have hkept := state_of_uses hgoals s
  rwa [h] at hkept

/-! ### The body of a procedure -/

/-- The scope is that of a place in the body of the procedure that is the newest declaration of
`base`: constants and variables have been declared since. -/
structure Scope.InBody (base scope : Scope) : Prop where
  procedure : base.newest?.map Declaration.kind = some .procedure
  own : ∃ own, scope.newestFirst = own ++ base.newestFirst ∧ ∀ d ∈ own, d.kind ≠ .procedure

namespace Scope.InBody

variable {scope scope' : Scope}

theorem refl (h : base.newest?.map Declaration.kind = some .procedure) : base.InBody base :=
  ⟨h, [], rfl, by simp⟩

/-- Leaving the body gives back the scope that it was entered in. -/
theorem close (h : base.InBody scope) : scope.close = base := by
  obtain ⟨own, hown, hkinds⟩ := h.own
  exact Scope.close_of_append h.procedure hkinds hown

theorem declareName {x : String} {kind : Kind} {depth : Nat} (h : base.InBody scope)
    (hkind : kind ≠ .procedure) (hdeclare : PlZero.declareName scope x kind depth = .ok scope') :
    base.InBody scope' := by
  obtain ⟨own, hown, hkinds⟩ := h.own
  obtain ⟨-, -, hscope⟩ := newest_of_declareName hdeclare
  refine ⟨h.procedure, ⟨x, kind, depth - 1, none⟩ :: own, by rw [hscope, hown]; rfl, ?_⟩
  exact List.forall_mem_cons.mpr ⟨hkind, hkinds⟩

/-- A size is that of a variable which has been declared in the body, since the newest declaration
around it is that of a procedure. -/
theorem recordSize {value : Int} {size : Nat} (h : base.InBody scope)
    (hsize : scope.recordSize value = .ok (size, scope')) : base.InBody scope' := by
  obtain ⟨own, hown, hkinds⟩ := h.own
  obtain ⟨d, older, hnewest, hkind, hscope⟩ := newestFirst_of_recordSize hsize
  cases own with
  | nil =>
    have hprocedure := h.procedure
    rw [Scope.newest?, ← List.nil_append base.newestFirst, ← hown, hnewest] at hprocedure
    cases hkind.symm.trans (Option.some.inj hprocedure)
  | cons e own =>
    obtain ⟨rfl, rfl⟩ := List.cons.inj (hnewest.symm.trans hown)
    refine ⟨h.procedure, { d with size := some size } :: own, hscope, ?_⟩
    exact List.forall_mem_cons.mpr (List.forall_mem_cons.mp hkinds)

/-- A step that declares no procedure and opens or closes no block stays in the body. -/
theorem step (h : base.InBody s.scope) (hg : g.reach ≤ 1) :
    base.InBody (PlZero.step g s).state.scope := by
  rcases scope_of_step g s with hsame | ⟨kind, x, rfl, hdeclare⟩ | ⟨_, _, rfl, hsize⟩ | rfl
  · exact hsame ▸ h
  · refine h.declareName ?_ hdeclare
    rintro rfl
    simp [reach] at hg
  · exact h.recordSize hsize
  · simp [reach] at hg

end Scope.InBody

theorem eq_of_run_nil (h : run [] s = .ok () t) : s = t := by
  rw [run_nil] at h
  exact (EStateM.Result.ok.inj h).2

theorem step_of_run {slot : Slot} (h : run [fill slot] s = .ok () t) :
    step (fill slot) s = .ok [] t := by
  obtain ⟨more, s', hstep, hrest⟩ := exists_step h
  obtain ⟨rfl, -⟩ := step_fill hstep
  rwa [eq_of_run_nil hrest] at hstep

/-- A run over several goals that comes to its end does so over the first of them. -/
theorem exists_run (goals : List Goal) (h : run (goals ++ gs) s = .ok () t) :
    ∃ s', run goals s = .ok () s' ∧ run gs s' = .ok () t := by
  rw [run_append] at h
  cases hfirst : run goals s with
  | ok u s' => exact ⟨s', rfl, by rwa [hfirst] at h⟩
  | error f s' => rw [hfirst] at h; cases h

/-- **No procedure is translated in the body of another one**, where two blocks are open. -/
theorem not_run_procedure (hdepth : 2 ≤ s.depth) : run procedureGoals s ≠ .ok () t := by
  intro h
  obtain ⟨_, s₁, hword, h⟩ := exists_step h
  obtain ⟨rfl, -, -, hdepth₁, -⟩ := step_fill hword
  obtain ⟨_, s₂, hname, h⟩ := exists_step h
  obtain ⟨rfl, -, -, hdepth₂, -⟩ := step_fill hname
  obtain ⟨_, s₃, hmark, h⟩ := exists_step h
  obtain ⟨rfl, -, -, hdepth₃, -⟩ := step_fill hmark
  obtain ⟨_, s₄, hblock, h⟩ := exists_step h
  obtain ⟨hgoals, rfl⟩ := step_expand hblock
  cases hgoals
  obtain ⟨_, s₅, henter, -⟩ := exists_step h
  obtain ⟨-, hperform⟩ := step_perform henter
  have hle := (perform_enter hperform).1
  omega

/-- So there are none where the procedures of a body would stand. -/
theorem eq_of_run_procedureList (hdepth : 2 ≤ s.depth)
    (h : run [expand .procedureList] s = .ok () t) : t = s := by
  obtain ⟨more, s', hstep, h⟩ := exists_step h
  obtain ⟨hmore, rfl⟩ := step_expand hstep
  simp only [expansion] at hmore
  split at hmore
  · cases hmore
    rw [List.append_assoc] at h
    obtain ⟨s', hprocedure, -⟩ := exists_run procedureGoals h
    exact absurd hprocedure (not_run_procedure hdepth)
  · cases hmore
    exact (eq_of_run_nil h).symm

/-- **The block of a procedure only adds constants and variables to the scope.** -/
theorem inBody_of_block (hprocedure : s.scope.newest?.map Declaration.kind = some .procedure)
    (hdepth : s.depth = 1) (h : run [expand (.block .procedure)] s = .ok () t) :
    s.scope.InBody t.scope := by
  obtain ⟨_, s₁, hblock, h⟩ := exists_step h
  obtain ⟨hgoals, rfl⟩ := step_expand hblock
  cases hgoals
  obtain ⟨_, s₂, henter, h⟩ := exists_step h
  obtain ⟨rfl, hperform⟩ := step_perform henter
  obtain ⟨-, rfl⟩ := perform_enter hperform
  -- The constants and variables, then the procedures, of which there are none, then the statement.
  obtain ⟨s₃, hown, h⟩ := exists_run [expand .constantList, expand .variableList] h
  obtain ⟨hdepth₃, hbody⟩ : s₃.depth = 2 ∧ s₁.scope.InBody s₃.scope := by
    have hreach : ∀ g ∈ [expand .constantList, expand .variableList], g.reach ≤ 1 := by decide
    have hkept := state_of_run (P := fun t => t.depth = 2 ∧ s₁.scope.InBody t.scope)
      (s := { s₁ with depth := s₁.depth + 1 })
      (fun g t hg ht => ⟨(depth_of_reach hg t).trans ht.1, ht.2.step hg⟩) hreach
      ⟨by rw [hdepth], .refl hprocedure⟩
    rwa [hown] at hkept
  obtain ⟨s₄, hprocedures, h⟩ := exists_run [expand .procedureList] h
  rw [eq_of_run_procedureList hdepth₃.ge hprocedures] at h
  obtain ⟨s₅, hstatement, h⟩ :=
    exists_run [expand .statement, write (.bodyEnd .procedure)] h
  obtain ⟨hscope₅, hdepth₅⟩ := scope_of_uses (by decide) hstatement
  obtain ⟨_, s₆, hleave, h⟩ := exists_step h
  obtain ⟨rfl, hperform⟩ := step_perform hleave
  obtain rfl := perform_leave hperform (hdepth₅.trans hdepth₃)
  rw [← eq_of_run_nil h]
  exact hscope₅ ▸ hbody

/-! ### Procedures -/

/-- The name that is looked at behind a word or a mark was the next item. -/
theorem ahead_of_skipped {e : Fixed} {x : String} (h : step (fill (.skipped e)) s = .ok more t)
    (hname : t.lookahead.value = .name x) :
    ∃ line rest, s.ahead = ⟨line, .ok (.name x)⟩ :: rest := by
  simp only [step_fill_eq, Slot.fill] at h
  split at h
  · next hfill =>
    split at hfill <;> cases hfill
    rw [State.write?, State.fetch] at h
    split at h <;> cases h
    · cases hname
    · next line token rest hahead =>
      cases hname
      exact ⟨line, rest, hahead⟩
  · cases h

/-- **A procedure in the block of the program adds its name to the scope**, and nothing else. -/
theorem scope_of_procedure (hdepth : s.depth = 1) (h : run procedureGoals s = .ok () t) :
    ∃ x line rest, s.ahead = ⟨line, .ok (.name x)⟩ :: rest ∧
      t.scope.toList = s.scope.toList ++ [⟨x, .procedure, 0, none⟩] ∧ t.depth = s.depth := by
  have hsame : t.depth = s.depth := by simpa [procedureGoals] using depth_of_run h
  obtain ⟨s₁, hword, h⟩ := exists_run [word .procedure] h
  obtain ⟨hscope₁, hdepth₁⟩ := scope_of_uses (by decide) hword
  have hskipped := step_of_run hword
  obtain ⟨_, s₂, hname, h⟩ := exists_step h
  obtain ⟨rfl, f, hfill, hdepth₂, -⟩ := step_fill hname
  obtain ⟨s₃, hmark, h⟩ := exists_run [mark .semicolon] h
  obtain ⟨hscope₃, hdepth₃⟩ := scope_of_uses (by decide) hmark
  obtain ⟨s₄, hblock, h⟩ := exists_run [expand (.block .procedure)] h
  obtain ⟨s₅, hmark', h⟩ := exists_run [mark .semicolon] h
  obtain ⟨hscope₅, -⟩ := scope_of_uses (by decide) hmark'
  obtain ⟨_, s₆, hclose, h⟩ := exists_step h
  obtain ⟨rfl, hperform⟩ := step_perform hclose
  cases hperform
  rw [← eq_of_run_nil h] at hsame ⊢
  rcases scope_of_fill hfill with
    ⟨hslot, -⟩ | ⟨kind, x, hslot, htoken, hdeclare⟩ | ⟨_, _, _, hslot, -⟩
  · exact absurd rfl (hslot .procedure)
  · cases hslot
    obtain ⟨line, rest, hahead⟩ := ahead_of_skipped hskipped htoken
    obtain ⟨-, -, hnewest⟩ := newest_of_declareName hdeclare
    have hprocedure : s₃.scope.newest?.map Declaration.kind = some .procedure := by
      rw [hscope₃, Scope.newest?, hnewest]
      rfl
    have hbody := inBody_of_block hprocedure (by omega) hblock
    refine ⟨x, line, rest, hahead, ?_, hsame⟩
    change s₅.scope.close.toList = _
    rw [hscope₅, hbody.close, hscope₃, Scope.toList, hnewest, hdepth₁, hdepth, hscope₁,
      List.reverse_cons]
    rfl
  · cases hslot

/-! ### The result -/

/-- **What a procedure leaves behind is its name.** Wherever a run comes by a procedure and gets
through it, this is a procedure of the program, whatever it declares and does: the scope is the one
in front of it with the procedure at the end, at level 0, and the depth is the same. Statements,
conditions and expressions leave both as they are at any time, whether they come to their end or
not. -/
theorem scope_of_translated (items : List Item) :
    (∀ gs s t, Visited items (procedureGoals ++ gs) s → run procedureGoals s = .ok () t →
      s.depth = 1 ∧ t.depth = 1 ∧
        ∃ p line rest, s.ahead = ⟨line, .ok (.name p)⟩ :: rest ∧
          t.scope.toList = s.scope.toList ++ [⟨p, .procedure, 0, none⟩]) ∧
    ∀ n ∈ [statement, condition, expression, term, factor], ∀ s,
      (run [expand n] s).state.scope = s.scope ∧ (run [expand n] s).state.depth = s.depth := by
  refine ⟨fun gs s t hvisited hrun => ?_, fun n hn s => ?_⟩
  · have hdepth : s.depth = 1 := by
      obtain ⟨_, s', hword, -⟩ := exists_step hrun
      obtain ⟨rfl, -, -, hsame, -⟩ := step_fill hword
      rcases (hvisited.next hword).depth_of_declared with ⟨hone, -⟩ | ⟨htwo, -⟩
      · exact hsame ▸ hone
      · exact absurd hrun (not_run_procedure (by omega))
    obtain ⟨p, line, rest, hahead, hscope, hsame⟩ := scope_of_procedure hdepth hrun
    exact ⟨hdepth, hsame.trans hdepth, p, line, rest, hahead, hscope⟩
  · have hreach : ∀ n ∈ [statement, condition, expression, term, factor],
        (expand n).reach = 0 := by decide
    exact state_of_uses (List.forall_mem_singleton.mpr (hreach n hn)) s

/-- A procedure with a variable and an assignment to it. -/
theorem scope_of_translated_assignment :
    let tokens : List Token := [.keyword .procedure, .name "p", .mark .semicolon, .keyword .var,
      .name "x", .mark .semicolon, .name "x", .mark .becomes, .number 1 "1", .mark .semicolon,
      .mark .dot, .endOfInput]
    ∃ gs s t, Visited (tokens.map fun t => ⟨.first, .ok t⟩) (procedureGoals ++ gs) s ∧
      run procedureGoals s = .ok () t ∧
        t.scope.toList = s.scope.toList ++ [⟨"p", .procedure, 0, none⟩] := by
  intro tokens
  let items : List Item := tokens.map fun t => ⟨.first, .ok t⟩
  let s : State :=
    ⟨⟨.first, .keyword .procedure⟩, items.tail, 1, .initial, 1, #[⟨.first, .preamble⟩]⟩
  have hvisited : Visited items (procedureGoals ++ [expand procedureList, write .mainHead,
      expand statement, write (.bodyEnd .program), perform .leave, mark .dot, perform .checkAtEnd,
      write .trailer]) s := by
    have hstart : Visited items programGoals (.start items) := .start
    have hblock := ((hstart.next rfl).next rfl).next rfl
    have hlists := ((hblock.next rfl).next rfl).next rfl
    exact hlists.next rfl
  have hends : (run procedureGoals s).account.failure? = none := by decide +kernel
  cases hrun : run procedureGoals s with
  | error f t =>
    rw [hrun] at hends
    cases hends
  | ok u t =>
    refine ⟨_, s, t, hvisited, hrun, ?_⟩
    obtain ⟨-, -, p, line, rest, hp, hscope⟩ := (scope_of_translated items).1 _ s t hvisited hrun
    cases hp
    exact hscope

end PlZero
