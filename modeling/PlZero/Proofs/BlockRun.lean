import PlZero.Proofs.Declarations
import PlZero.Proofs.TreeRun

/-!
# Runs along blocks and programs

`PlZero.Proofs.TreeRun` for the parts of a program that change the scope. A block is realized
part by part; the operations that it asks of the scope are those of its tree, and where they
succeed its fragments are those of its tree in that scope (`Block.realizes`). A whole program
adds the frame (`run_program`).
-/

namespace PlZero.Tree

open Goal

/-! ### What may follow a part of a block -/

/-- The place in a block of the part that a token begins. -/
def sectionRank : Token → Nat
  | .keyword .const => 0
  | .keyword .var => 1
  | .keyword .procedure => 2
  | _ => 3

section Expansion

variable {t : Token}

theorem expansion_constantList (h : 0 < sectionRank t) :
    Nonterminal.constantList.expansion t = .ok [] := by
  simp only [Nonterminal.expansion]
  split <;> first | rfl | exact absurd h (by decide)

theorem expansion_variableList (h : 1 < sectionRank t) :
    Nonterminal.variableList.expansion t = .ok [] := by
  simp only [Nonterminal.expansion]
  split <;> first | rfl | exact absurd h (by decide)

theorem expansion_procedureList (h : 2 < sectionRank t) :
    Nonterminal.procedureList.expansion t = .ok [] := by
  simp only [Nonterminal.expansion]
  split <;> first | rfl | exact absurd h (by decide)

end Expansion

variable {s : State} {r : List (Except LexicalError Token)}

theorem Statement.startsWith (t : Statement) (hr : StartsWith (endsStatement ·) r) :
    StartsWith (2 < sectionRank ·) (t.tokens.map .ok ++ r) := by
  cases t with
  | empty =>
    refine hr.mono fun t ht => ?_
    unfold endsStatement at ht
    split at ht <;> first | decide | cases ht
  | printName form x => exact startsWith_cons _ r (by cases form <;> decide)
  | printNumber form n => exact startsWith_cons _ r (by cases form <;> decide)
  | read form hasInto x => exact startsWith_cons _ r (by cases form <;> decide)
  | _ => exact startsWith_cons _ r (Nat.lt_succ_self 2)

theorem Procedures.startsWith (procedures : Procedures) (hr : StartsWith (2 < sectionRank ·) r) :
    StartsWith (1 < sectionRank ·) (procedures.tokens.map .ok ++ r) := by
  cases procedures with
  | done => exact hr.mono fun t ht => Nat.lt_of_succ_lt ht
  | next name block more => exact startsWith_cons _ r (by decide)

theorem variables_startsWith (vars : List Variable) (hr : StartsWith (1 < sectionRank ·) r) :
    StartsWith (0 < sectionRank ·)
      ((listTokens .var Variable.tokens vars).map .ok ++ r) := by
  cases vars with
  | nil => exact hr.mono fun t ht => Nat.lt_of_succ_lt ht
  | cons first more => exact startsWith_cons _ r (by decide)

/-! ### Single slots -/

section Slots

variable {gs : List Goal} {us : List Token} {fs' : List Fragment}
  {result : Except StaticError Scope} {p : Token → Prop}

/-- A slot in front that leaves the scope as it is. -/
theorem realizes_filled {slot : Slot} {t : Token} {f : Fragment}
    (hfill : slot.fill s.depth s.scope t = .ok (s.scope, some f))
    (h : s.upcoming = (t :: us).map .ok ++ r) (hr : StartsWith p r)
    (h₂ : ∀ s', s'.upcoming = us.map .ok ++ r → s'.scope = s.scope → s'.depth = s.depth →
      Realizes gs s' us fs' result) :
    Realizes (fill slot :: gs) s (t :: us) (f :: fs') result := by
  obtain ⟨u, rest, hu, -⟩ := startsWith_any us hr
  have hup : s.upcoming = .ok t :: .ok u :: rest := by rw [h, ← hu]; rfl
  have hslot : Realizes [fill slot] s [t] [f] (.ok s.scope) := Realizes.fill (f := some f) hup hfill
  refine Realizes.cons [t] [f] (k := fun _ => result) h hslot fun s' hup' hdepth hs' => ?_
  exact h₂ s' hup' (Except.ok.inj hs').symm hdepth

/-- A fragment that is written in front. -/
theorem realizes_write {f : Fragment} (h : s.upcoming = us.map .ok ++ r)
    (h₂ : ∀ s', s'.upcoming = us.map .ok ++ r → s'.scope = s.scope → s'.depth = s.depth →
      Realizes gs s' us fs' result) :
    Realizes (write f :: gs) s us (f :: fs') result :=
  Realizes.cons [] [f] (k := fun _ => result) h (Realizes.write s f)
    fun s' h' hd' hs' => h₂ s' h' (Except.ok.inj hs').symm hd'

/-- A name that is declared in front. -/
theorem realizes_declared {kind : Kind} {x : String} {operations : List Operation} {depth : Nat}
    (hdepth : s.depth = depth) (h : s.upcoming = (.name x :: us).map .ok ++ r)
    (hr : StartsWith p r)
    (h₂ : ∀ s', s'.upcoming = us.map .ok ++ r → s'.depth = depth →
      declareName s.scope x kind depth = .ok s'.scope →
      Realizes gs s' us fs' (applyAll s'.scope operations)) :
    Realizes (fill (.declared kind) :: gs) s (.name x :: us) (declarationHead kind x :: fs')
      (applyAll s.scope (.declare x kind depth :: operations)) := by
  obtain ⟨u, rest, hu, -⟩ := startsWith_any us hr
  have hup : s.upcoming = .ok (.name x) :: .ok u :: rest := by rw [h, ← hu]; rfl
  rw [applyAll_cons]
  refine Realizes.cons [.name x] [declarationHead kind x] h
    (Realizes.fill (f := some (declarationHead kind x)) hup ?_) fun s' hup' hdepth' hs' =>
      h₂ s' hup' (hdepth'.trans hdepth) hs'
  simp only [Slot.fill, hdepth, Operation.apply]
  cases declareName s.scope x kind depth <;> rfl

end Slots

/-! ### Constants and variables -/

theorem realizes_constantGoals {s : State} {depth : Nat} {p : Token → Prop} (first : Constant)
    (more : List Constant) (hdepth : s.depth = depth)
    (h : s.upcoming = (first.tokens ++ listTail Constant.tokens more).map .ok ++ r)
    (hr : StartsWith p r) :
    Realizes Nonterminal.constantGoals s (first.tokens ++ listTail Constant.tokens more)
      (first.fragments ++ more.flatMap Constant.fragments)
      (applyAll s.scope ((first :: more).flatMap (Constant.operations depth))) := by
  refine realizes_declared hdepth h hr fun s₁ h₁ hd₁ _ => ?_
  refine realizes_skipped (t := .mark .equals) rfl h₁ hr fun s₂ h₂ hs₂ hd₂ => ?_
  refine realizes_filled (t := first.value.token) (f := .constantValue first.value.value) rfl
    h₂ hr fun s₃ h₃ hs₃ hd₃ => ?_
  rw [← hs₂, ← hs₃]
  have hdepth₃ : s₃.depth = depth := by rw [hd₃, hd₂, hd₁]
  cases more with
  | nil =>
    refine Realizes.expand h₃ rfl ?_
    exact realizes_skipped (t := .mark .semicolon) rfl h₃ hr fun s₄ _ hs₄ _ =>
      hs₄ ▸ Realizes.nil s₄
  | cons second more =>
    refine Realizes.expand h₃ rfl ?_
    have h₃' : s₃.upcoming = (.mark .comma ::
        (second.tokens ++ listTail Constant.tokens more)).map .ok ++ r := by
      simpa [listTail] using h₃
    have htokens : listTail Constant.tokens (second :: more) =
        .mark .comma :: (second.tokens ++ listTail Constant.tokens more) := by
      simp [listTail]
    rw [htokens]
    refine realizes_skipped (t := .mark .comma) rfl h₃' hr fun s₄ h₄ hs₄ hd₄ => ?_
    rw [← hs₄]
    exact realizes_constantGoals second more (hd₄.trans hdepth₃) h₄ hr
termination_by more.length

/-- The goal behind the name of a variable, where a size may stand. -/
theorem realizes_variableSize {s : State} {depth : Nat} {scope : Scope} {x : String}
    (size : Option Numeral) {t : Token} (ht : t ≠ word .size)
    (hscope : s.scope = extend scope [⟨x, .variable, depth, none⟩])
    (h : s.upcoming = (sizeTokens size).map .ok ++ .ok t :: r) :
    Realizes [expand .variableSize] s (sizeTokens size) (boundFragments size)
      (applyAll s.scope (size.map fun n => Operation.size n.value).toList) := by
  cases size with
  | none =>
    have hexp : Nonterminal.variableSize.expansion t = .ok [] := by
      simp only [Nonterminal.expansion]
    exact Realizes.expand h hexp (Realizes.nil s)
  | some n =>
    refine Realizes.expand h rfl ?_
    refine realizes_skipped (t := .word .size) (r := .ok t :: r)
      (p := fun _ => True) rfl h ⟨t, r, rfl, trivial⟩ fun s' h' hs' _ => ?_
    have hresult : applyAll s.scope [Operation.size n.value] =
        (s'.scope.recordSize n.value).map Prod.snd := by
      rw [applyAll_cons, hs', Operation.apply]
      cases s.scope.recordSize n.value <;> rfl
    change Realizes [fill .arrayBound] s' [n.token] [.arrayBound n.value.toNat]
      (applyAll s.scope [Operation.size n.value])
    rw [hresult]
    refine Realizes.fill (f := some (.arrayBound n.value.toNat)) h' ?_
    rw [hs', hscope]
    simp only [Slot.fill, Numeral.token, extend, List.reverse_singleton, List.singleton_append,
      Scope.recordSize_eq]
    by_cases hn : 1 ≤ n.value ∧ n.value ≤ maxNumber
    · simp only [hn, and_self, if_true]
      rfl
    · simp only [hn, if_false]
      rfl

theorem realizes_variableGoals {s : State} {depth : Nat} {p : Token → Prop} (first : Variable)
    (more : List Variable) (hdepth : s.depth = depth + 1)
    (h : s.upcoming = (first.tokens ++ listTail Variable.tokens more).map .ok ++ r)
    (hr : StartsWith p r) :
    Realizes Nonterminal.variableGoals s (first.tokens ++ listTail Variable.tokens more)
      (variablesFragments (first :: more))
      (applyAll s.scope ((first :: more).flatMap (Variable.operations (depth + 1)))) := by
  obtain ⟨x, size⟩ := first
  obtain ⟨t, ts, htail, ht⟩ : ∃ t ts, listTail Variable.tokens more = t :: ts ∧
      t ≠ word .size := by
    cases more <;> exact ⟨_, _, rfl, by simp⟩
  have hfragments : variablesFragments (⟨x, size⟩ :: more) = .variableHead x ::
      (boundFragments size ++ (.variableEnd ::
        (more.flatMap Variable.fragments ++ [.variablesEnd]))) := by
    simp [variablesFragments, Variable.fragments]
  rw [hfragments]
  refine realizes_declared hdepth h hr fun s₁ h₁ hd₁ hs₁ => ?_
  obtain ⟨-, -, hs₁⟩ := declareName_eq_ok_iff.mp hs₁
  change Realizes _ s₁ (sizeTokens size ++ _) _ (applyAll s₁.scope
    ((size.map fun n => Operation.size n.value).toList ++
      more.flatMap (Variable.operations (depth + 1))))
  rw [applyAll_append]
  refine Realizes.cons _ _ h₁ (realizes_variableSize (r := ts.map .ok ++ r) size ht hs₁
    (by simpa [htail] using h₁)) fun s₂ h₂ hd₂ _ => ?_
  refine Realizes.cons [] [.variableEnd]
    (k := fun scope => applyAll scope (more.flatMap (Variable.operations (depth + 1)))) h₂
    (Realizes.write s₂ .variableEnd) fun s₃ h₃ hd₃ hs₃ => ?_
  have hdepth₃ : s₃.depth = depth + 1 := by rw [hd₃, hd₂, hd₁]
  cases more with
  | nil =>
    refine Realizes.expand h₃ rfl ?_
    exact realizes_skipped (t := .mark .semicolon) rfl h₃ hr fun s₄ _ hs₄ _ =>
      hs₄ ▸ Realizes.write s₄ .variablesEnd
  | cons second more =>
    have htokens : listTail Variable.tokens (second :: more) =
        .mark .comma :: (second.tokens ++ listTail Variable.tokens more) := by
      simp [listTail]
    have hfs : (second :: more).flatMap Variable.fragments ++ [.variablesEnd] =
        variablesFragments (second :: more) := by
      simp [variablesFragments]
    change Realizes _ s₃ (listTail Variable.tokens (second :: more))
      ((second :: more).flatMap Variable.fragments ++ [.variablesEnd]) _
    change s₃.upcoming = (listTail Variable.tokens (second :: more)).map .ok ++ r at h₃
    rw [htokens] at h₃ ⊢
    rw [hfs]
    refine Realizes.expand h₃ rfl ?_
    refine realizes_skipped (t := .mark .comma) rfl h₃ hr fun s₄ h₄ hs₄ hd₄ => ?_
    rw [← hs₄]
    exact realizes_variableGoals second more (hd₄.trans hdepth₃) h₄ hr
termination_by more.length

theorem realizes_constants {depth : Nat} (constants : List Constant) (hdepth : s.depth = depth)
    (h : s.upcoming = (listTokens .const Constant.tokens constants).map .ok ++ r)
    (hr : StartsWith (0 < sectionRank ·) r) :
    Realizes [expand .constantList] s (listTokens .const Constant.tokens constants)
      (constants.flatMap Constant.fragments)
      (applyAll s.scope (constants.flatMap (Constant.operations depth))) := by
  cases constants with
  | nil =>
    obtain ⟨t, rest, rfl, ht⟩ := hr
    exact Realizes.expand h (expansion_constantList ht) (Realizes.nil s)
  | cons first more =>
    refine Realizes.expand h rfl ?_
    refine realizes_skipped (t := .word .const) rfl h hr fun s' h' hs' hd' => ?_
    rw [← hs']
    exact realizes_constantGoals first more (hd'.trans hdepth) h' hr

theorem realizes_variables {depth : Nat} (vars : List Variable) (hdepth : s.depth = depth + 1)
    (h : s.upcoming = (listTokens .var Variable.tokens vars).map .ok ++ r)
    (hr : StartsWith (1 < sectionRank ·) r) :
    Realizes [expand .variableList] s (listTokens .var Variable.tokens vars)
      (variablesFragments vars)
      (applyAll s.scope (vars.flatMap (Variable.operations (depth + 1)))) := by
  cases vars with
  | nil =>
    obtain ⟨t, rest, rfl, ht⟩ := hr
    exact Realizes.expand h (expansion_variableList ht) (Realizes.nil s)
  | cons first more =>
    refine Realizes.expand h rfl ?_
    refine realizes_skipped (t := .word .var) rfl h hr fun s' h' hs' hd' => ?_
    rw [← hs']
    exact realizes_variableGoals first more (hd'.trans hdepth) h' hr

/-! ### Blocks -/

/-- Between entering and leaving, one more block is open. -/
theorem realizes_enclosed {gs : List Goal} {ts : List Token} {fs : List Fragment} {depth : Nat}
    {operations : List Operation} (hdepth : s.depth = depth)
    (h : ∀ s', s'.upcoming = s.upcoming → s'.scope = s.scope → s'.depth = depth + 1 →
      Realizes gs s' ts fs (applyAll s.scope operations)) :
    Realizes (perform .enter :: (gs ++ [perform .leave])) s ts fs
      (applyAll s.scope (.enter depth :: operations)) := by
  rw [applyAll_cons]
  simp only [Operation.apply]
  split
  · next hdeep =>
    refine ⟨⟨s.lookahead.line, .static .nestedTooDeep⟩, s, ?_, rfl⟩
    simp [run_cons, step, Action.perform, hdepth, hdeep, Outcome.leavesNone, State.fail]
  · next hdeep =>
    let inner : State := { s with depth := s.depth + 1 }
    have hinner := h inner rfl rfl (congrArg (· + 1) hdepth)
    have henter : step (perform .enter) s = .ok [] inner := by
      simp [step, Action.perform, hdepth, hdeep, Outcome.leavesNone, inner]
    have hrun : run (perform .enter :: (gs ++ [perform .leave])) s =
        run (gs ++ [perform .leave]) inner := by
      rw [run_cons, henter]
      rfl
    change Realizes _ s ts fs (applyAll s.scope operations)
    cases hresult : applyAll s.scope operations with
    | error e =>
      rw [hresult] at hinner
      obtain ⟨f, t, hrun', hf⟩ := hinner
      exact ⟨f, t, by rw [hrun, run_append, hrun'], hf⟩
    | ok scope =>
      rw [hresult] at hinner
      obtain ⟨t, hrun', htook, hscope⟩ := hinner
      have hdepth' : t.depth = s.depth + 1 := htook.depth_eq
      refine ⟨{ t with depth := s.depth }, ?_, ⟨htook.upcoming_eq, htook.fragments_eq, rfl⟩, hscope⟩
      rw [hrun, run_append, hrun']
      simp [run_cons, run_nil, step, Action.perform, hdepth', Outcome.leavesNone]

/-- The statement of a block, with what stands around it. -/
theorem realizes_body (kind : PlZero.Block) (body : Statement)
    (h : s.upcoming = body.tokens.map .ok ++ r) (hr : StartsWith (endsStatement ·) r) :
    Realizes ((bodyHead kind).map write ++ [expand .statement, write (.bodyEnd kind)]) s body.tokens
      (bodyHead kind ++ (body.fragments s.scope.lookup ++ [.bodyEnd kind]))
      (useAll s.scope body.uses) := by
  have hstatement : ∀ s', s'.upcoming = body.tokens.map .ok ++ r → s'.scope = s.scope →
      Realizes [expand .statement, write (.bodyEnd kind)] s' body.tokens
        (body.fragments s.scope.lookup ++ [.bodyEnd kind]) (useAll s.scope body.uses) := by
    intro s' h' hs'
    rw [← List.append_nil body.uses, ← List.append_nil body.tokens]
    exact realizes_uses (r := r) (by simpa using h') (body.realizes hs' h' hr)
      fun s'' _ hs'' => hs'' ▸ Realizes.write s'' (.bodyEnd kind)
  cases kind with
  | program => exact realizes_write h fun s' h' hs' _ => hstatement s' h' hs'
  | procedure => exact hstatement s h rfl

mutual

theorem Block.realizes {s : State} {r : List (Except LexicalError Token)} {depth : Nat}
    (kind : PlZero.Block) (b : Block) (hdepth : s.depth = depth)
    (h : s.upcoming = b.tokens.map .ok ++ r) (hr : StartsWith (endsStatement ·) r) :
    Realizes [expand (.block kind)] s b.tokens (b.fragments kind depth s.scope)
      (applyAll s.scope (b.operations depth)) := by
  obtain ⟨constants, vars, procedures, body⟩ := b
  have hbody := body.startsWith hr
  have hprocedures := procedures.startsWith hbody
  have hvariables := variables_startsWith vars hprocedures
  obtain ⟨t, rest, hup⟩ : ∃ t rest, s.upcoming = .ok t :: rest := ⟨_, _, rfl⟩
  have hgoals : Nonterminal.blockGoals kind = perform .enter ::
      ((([expand .constantList, expand .variableList, expand .procedureList] : List Goal) ++
        ((bodyHead kind).map write ++ [expand .statement, write (.bodyEnd kind)])) ++
          [perform .leave]) := by
    cases kind <;> rfl
  refine Realizes.expand hup rfl ?_
  rw [hgoals]
  refine realizes_enclosed hdepth fun s₁ h₁ hs₁ hd₁ => ?_
  rw [← hs₁]
  replace h₁ := h₁.trans h
  rw [applyAll_append]
  refine Realizes.cons _ _ h₁ (realizes_constants constants hd₁ (by simpa [Block.tokens] using h₁)
    (by simpa using hvariables)) fun s₂ h₂ hd₂ hs₂ => ?_
  obtain ⟨-, -, -, hs₂⟩ := (applyAll_constants_iff constants).mp hs₂
  rw [applyAll_append]
  refine Realizes.cons _ _ h₂ (realizes_variables vars (hd₂.trans hd₁) (by simpa using h₂)
    (by simpa using hprocedures)) fun s₃ h₃ hd₃ hs₃ => ?_
  obtain ⟨-, -, -, hs₃⟩ := (applyAll_variables_iff vars).mp hs₃
  have hown : s₃.scope = extend s₁.scope (ownDeclarations depth constants vars) := by
    rw [hs₃, hs₂, extend_extend]
    rfl
  have hdepth₃ : s₃.depth = depth + 1 := by rw [hd₃, hd₂, hd₁]
  rw [applyAll_append, ← hown]
  refine Realizes.cons _ _ h₃ (procedures.realizes hdepth₃ (by simpa using h₃) hbody)
    fun s₄ h₄ hd₄ hs₄ => ?_
  have hall := Procedures.scope_of_applyAll hs₄
  rw [← hall]
  exact realizes_body kind body h₄ hr

theorem Procedures.realizes {s : State} {r : List (Except LexicalError Token)} {depth : Nat}
    (procedures : Procedures) (hdepth : s.depth = depth + 1)
    (h : s.upcoming = procedures.tokens.map .ok ++ r) (hr : StartsWith (2 < sectionRank ·) r) :
    Realizes [expand .procedureList] s procedures.tokens (procedures.fragments depth s.scope)
      (applyAll s.scope (procedures.operations (depth + 1))) := by
  cases procedures with
  | done =>
    obtain ⟨t, rest, rfl, ht⟩ := hr
    exact Realizes.expand h (expansion_procedureList ht) (Realizes.nil s)
  | next name block more =>
    refine Realizes.expand h rfl ?_
    refine realizes_skipped (t := .word .procedure) rfl h hr fun s₁ h₁ hs₁ hd₁ => ?_
    rw [← hs₁]
    refine realizes_declared (hd₁.trans hdepth) h₁ hr fun s₂ h₂ hd₂ hs₂ => ?_
    obtain ⟨-, -, hs₂⟩ := declareName_eq_ok_iff.mp hs₂
    refine realizes_skipped (t := .mark .semicolon) rfl h₂ hr fun s₃ h₃ hs₃ hd₃ => ?_
    have hdepth₃ := hd₃.trans hd₂
    rw [applyAll_append, ← hs₃]
    have hscope₃ : s₃.scope = extend s₁.scope [procedureDeclaration depth name] := hs₃.trans hs₂
    refine Realizes.cons _ _ h₃ ?_ fun s₄ h₄ hd₄ hs₄ => ?_
    · exact hscope₃ ▸ block.realizes .procedure hdepth₃ (by simpa using h₃)
        (startsWith_cons _ r rfl)
    · refine realizes_skipped (t := .mark .semicolon) rfl h₄ hr fun s₅ h₅ hs₅ hd₅ => ?_
      have hclose : s₄.scope.close = s₃.scope :=
        hscope₃ ▸ Block.close_of_applyAll (hscope₃ ▸ hs₄)
      rw [applyAll_cons]
      refine Realizes.cons [] [] h₅ (hs₅ ▸ Realizes.closeScope s₅) fun s₆ h₆ hd₆ hs₆ => ?_
      have hscope₆ : s₆.scope = s₃.scope := (Except.ok.inj hs₆).symm.trans hclose
      have hdepth₆ : s₆.depth = depth + 1 := by rw [hd₆, hd₅, hd₄, hdepth₃]
      exact hscope₃ ▸ hscope₆ ▸ more.realizes hdepth₆ h₆ hr

end

/-! ### Programs -/

/-- The state in which the first token is looked at: the head of the frame has been written. -/
def afterFirst (first : Located Token) (ahead : List Item) : State :=
  { ((State.start []).write .preamble) with lookahead := first, ahead, fetched := 1 }

/-- Compiling begins with the head of the frame and the first token. -/
theorem compileItems_cons (line : Line) (t : Token) (rest : List Item) :
    compileItems (⟨line, .ok t⟩ :: rest) =
      run [expand (.block .program), mark .dot, perform .checkAtEnd, write .trailer]
        (afterFirst ⟨line, t⟩ rest) := by
  simp only [compileItems, programGoals, run_cons, step, Action.perform, Outcome.leavesNone,
    State.emit_eq_write, State.fetch, State.write, State.start, List.nil_append]
  rfl

/-- Only the end of the input stands behind a program. -/
theorem realizes_atEnd (h : s.upcoming = .ok .endOfInput :: r) :
    Realizes [perform .checkAtEnd] s [] [] (.ok s.scope) := by
  refine ⟨s, ?_, .refl s, rfl⟩
  simp [run_cons, run_nil, step, Action.perform, State.lookahead_of_upcoming h,
    Outcome.leavesNone]

theorem Program.realizes (p : Program) (hdepth : s.depth = 0)
    (h : s.upcoming = p.tokens.map .ok ++ [.ok .endOfInput]) :
    Realizes [expand (.block .program), mark .dot, perform .checkAtEnd, write .trailer] s p.tokens
      (p.block.fragments .program 0 s.scope ++ [.trailer]) (applyAll s.scope p.operations) := by
  rw [Program.operations, ← List.append_nil (p.block.operations 0), applyAll_append]
  have hend : StartsWith (fun _ => True) [.ok .endOfInput] := ⟨_, [], rfl, trivial⟩
  refine Realizes.cons _ _ h (p.block.realizes .program hdepth
    (by simpa [Program.tokens] using h) (startsWith_cons [] _ rfl)) fun s₁ h₁ _ _ => ?_
  refine realizes_skipped (t := .mark .dot) rfl h₁ hend fun s₂ h₂ hs₂ _ => ?_
  refine Realizes.cons [] [] (k := fun _ => .ok s₁.scope) h₂ (realizes_atEnd h₂)
    fun s₃ h₃ _ hs₃ => ?_
  have hscope : s₃.scope = s₁.scope := (Except.ok.inj hs₃).symm.trans hs₂
  exact hscope ▸ Realizes.write s₃ .trailer

theorem Program.exists_tokens (p : Program) : ∃ t ts, p.tokens = t :: ts := by
  rw [← List.ne_nil_iff_exists_cons]
  simp [Program.tokens]

/-- **A sentence of the grammar is compiled as its tree says.** If the static rules hold, the
run finishes and has written the frame and the fragments of the tree; otherwise it stops with
the first rule that is broken, in the order of the text. -/
theorem run_program (p : Program) {items : List Item}
    (h : items.map Located.value = p.tokens.map .ok ++ [.ok .endOfInput]) :
    match applyAll .initial p.operations with
    | .ok scope => ∃ s, compileItems items = .ok () s ∧
        s.fragments = .preamble :: (p.fragments ++ [.trailer]) ∧ s.scope = scope
    | .error e => ∃ f s, compileItems items = .error f s ∧ f.value = .static e := by
  obtain ⟨t, ts, hts⟩ := p.exists_tokens
  rw [hts] at h
  obtain ⟨⟨line, i⟩, rest, rfl, rfl, hrest⟩ := List.map_eq_cons_iff.mp h
  have hup : (afterFirst ⟨line, t⟩ rest).upcoming = p.tokens.map .ok ++ [.ok .endOfInput] := by
    simp [afterFirst, State.upcoming, hrest, hts]
  have hrealizes := p.realizes (s := afterFirst ⟨line, t⟩ rest) rfl hup
  rw [compileItems_cons]
  change Realizes _ _ _ (p.fragments ++ [.trailer]) (applyAll .initial p.operations) at hrealizes
  cases hresult : applyAll .initial p.operations with
  | error e =>
    rw [hresult] at hrealizes
    exact hrealizes
  | ok scope =>
    rw [hresult] at hrealizes
    obtain ⟨s, hrun, htook, hscope⟩ := hrealizes
    exact ⟨s, hrun, htook.fragments_eq, hscope⟩

end PlZero.Tree
