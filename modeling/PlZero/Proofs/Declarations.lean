import PlZero.Proofs.Tree

/-!
# What declarations do to a scope

A declaration in a tree is made in the scope by one or two operations. They succeed under a
condition on the tree and on the names of the level (`namesAt`), and then the scope is the old
one with the declaration in front (`extend`). The body of a procedure is left with the scope in
which it was entered (`Block.applyAll_body_iff`), because a procedure in it would not have been
admitted (`Procedures.eq_done`).
-/

namespace PlZero.Tree

/-! ### Scopes and their names -/

/-- The names that are declared at a level, the newest first. -/
def namesAt (scope : Scope) (level : Nat) : List String :=
  (scope.newestFirst.filter fun d => d.level = level).map Declaration.name

@[simp]
theorem extend_nil (scope : Scope) : extend scope [] = scope := rfl

@[simp]
theorem extend_extend (scope : Scope) (ds es : List Declaration) :
    extend (extend scope ds) es = extend scope (ds ++ es) := by
  simp [extend]

theorem mem_namesAt_extend {scope : Scope} {ds : List Declaration} {level : Nat} {x : String}
    (hlevel : ∀ d ∈ ds, d.level = level) :
    x ∈ namesAt (extend scope ds) level ↔
      x ∈ ds.map Declaration.name ∨ x ∈ namesAt scope level := by
  have hall : ds.reverse.filter (fun d => decide (d.level = level)) = ds.reverse :=
    List.filter_eq_self.mpr fun d hd => decide_eq_true (hlevel d (List.mem_reverse.mp hd))
  simp only [namesAt, extend, List.filter_append, hall, List.map_append, List.map_reverse,
    List.mem_append, List.mem_reverse]

/-- What is declared at another level leaves the names of a level alone. -/
theorem namesAt_extend_of_ne {scope : Scope} {ds : List Declaration} {level : Nat}
    (hlevel : ∀ d ∈ ds, d.level ≠ level) :
    namesAt (extend scope ds) level = namesAt scope level := by
  have hnone : ds.reverse.filter (fun d => decide (d.level = level)) = [] :=
    List.filter_eq_nil_iff.mpr fun d hd => by simpa using hlevel d (List.mem_reverse.mp hd)
  simp [namesAt, extend, hnone]

/-! ### Operations in a row -/

variable {scope scope' : Scope} {level : Nat}

theorem applyAll_append_eq_ok_iff {ops ops' : List Operation} :
    applyAll scope (ops ++ ops') = .ok scope' ↔
      ∃ s, applyAll scope ops = .ok s ∧ applyAll s ops' = .ok scope' := by
  rw [applyAll_append]
  cases applyAll scope ops with
  | error e => simp [bind, Except.bind]
  | ok s => simp [bind, Except.bind]

theorem applyAll_cons_eq_ok_iff {op : Operation} {ops : List Operation} :
    applyAll scope (op :: ops) = .ok scope' ↔
      ∃ s, op.apply scope = .ok s ∧ applyAll s ops = .ok scope' := by
  rw [applyAll_cons]
  cases op.apply scope with
  | error e => simp [bind, Except.bind]
  | ok s => simp [bind, Except.bind]

@[simp]
theorem applyAll_nil_eq_ok_iff : applyAll scope [] = .ok scope' ↔ scope' = scope := by
  simp [applyAll, pure, Except.pure, eq_comm]

/-! ### Single declarations -/

/-- A name can be declared if it is neither reserved nor declared at the level already. -/
theorem declareName_eq_ok_iff {x : String} {kind : Kind} :
    declareName scope x kind (level + 1) = .ok scope' ↔
      isReserved x = false ∧ x ∉ namesAt scope level ∧
        scope' = extend scope [⟨x, kind, level, none⟩] := by
  have hany : (scope.newestFirst.any fun d => d.name = x && d.level = level) = true ↔
      x ∈ namesAt scope level := by
    simp only [namesAt, List.any_eq_true, Bool.and_eq_true, decide_eq_true_eq, List.mem_map,
      List.mem_filter]
    exact exists_congr fun d => by grind
  simp only [declareName, Scope.declare_eq, Nat.add_sub_cancel]
  cases hr : isReserved x with
  | true => simp
  | false =>
    by_cases hx : x ∈ namesAt scope level
    · simp only [hany.mpr hx, if_true]
      simp [hx]
    · simp only [mt hany.mp hx]
      simp [hx, extend, eq_comm]

theorem Constant.applyAll_iff {c : Constant} :
    applyAll scope (c.operations (level + 1)) = .ok scope' ↔
      isReserved c.name = false ∧ c.name ∉ namesAt scope level ∧
        scope' = extend scope [c.declaration level] := by
  simp only [Constant.operations, applyAll_cons_eq_ok_iff, applyAll_nil_eq_ok_iff, Operation.apply,
    declareName_eq_ok_iff, Constant.declaration]
  constructor
  · rintro ⟨s, ⟨hr, hx, rfl⟩, rfl⟩
    exact ⟨hr, hx, rfl⟩
  · rintro ⟨hr, hx, rfl⟩
    exact ⟨_, ⟨hr, hx, rfl⟩, rfl⟩

/-- The size of a variable, if it has one, is in range. -/
def Variable.HasSizeInRange (v : Variable) : Prop :=
  ∀ n ∈ v.size, 1 ≤ n.value ∧ n.value ≤ maxNumber

/-- The newest declaration gets a size if it is a variable. -/
theorem recordSize_extend {x : String} {size : Option Nat} {n : Int} :
    ((extend scope [⟨x, .variable, level, size⟩]).recordSize n).map Prod.snd = .ok scope' ↔
      (1 ≤ n ∧ n ≤ maxNumber) ∧ scope' = extend scope [⟨x, .variable, level, some n.toNat⟩] := by
  simp only [extend, List.reverse_singleton, List.singleton_append, Scope.recordSize_eq]
  by_cases hn : 1 ≤ n ∧ n ≤ maxNumber
  · simp [hn, Except.map, eq_comm]
  · simp [hn, Except.map]

theorem Variable.applyAll_iff {v : Variable} :
    applyAll scope (v.operations (level + 1)) = .ok scope' ↔
      (isReserved v.name = false ∧ v.HasSizeInRange) ∧ v.name ∉ namesAt scope level ∧
        scope' = extend scope [v.declaration level] := by
  obtain ⟨x, size⟩ := v
  simp only [Variable.operations, applyAll_cons_eq_ok_iff, Operation.apply, declareName_eq_ok_iff,
    Variable.declaration, Variable.HasSizeInRange]
  constructor
  · rintro ⟨s, ⟨hr, hx, rfl⟩, hsize⟩
    cases size with
    | none => exact ⟨⟨hr, by simp⟩, hx, applyAll_nil_eq_ok_iff.mp hsize⟩
    | some n =>
      obtain ⟨s, hs, hnil⟩ := applyAll_cons_eq_ok_iff.mp hsize
      obtain ⟨hn, rfl⟩ := recordSize_extend.mp hs
      exact ⟨⟨hr, by simpa using hn⟩, hx, applyAll_nil_eq_ok_iff.mp hnil⟩
  · rintro ⟨⟨hr, hsize⟩, hx, rfl⟩
    refine ⟨_, ⟨hr, hx, rfl⟩, ?_⟩
    cases size with
    | none => exact applyAll_nil_eq_ok_iff.mpr rfl
    | some n =>
      exact applyAll_cons_eq_ok_iff.mpr ⟨_, recordSize_extend.mpr ⟨hsize n rfl, rfl⟩,
        applyAll_nil_eq_ok_iff.mpr rfl⟩

/-! ### Lists of declarations -/

/-- Declarations that each need `p` and a new name need `p` throughout and different new
names. -/
theorem applyAll_flatMap_iff {α : Type} {operations : α → List Operation}
    (declaration : α → Declaration) {p : α → Prop} (hlevel : ∀ a, (declaration a).level = level)
    (hone : ∀ a scope scope', applyAll scope (operations a) = .ok scope' ↔
      p a ∧ (declaration a).name ∉ namesAt scope level ∧ scope' = extend scope [declaration a])
    (as : List α) :
    applyAll scope (as.flatMap operations) = .ok scope' ↔
      (∀ a ∈ as, p a) ∧ (as.map fun a => (declaration a).name).Nodup ∧
        (∀ a ∈ as, (declaration a).name ∉ namesAt scope level) ∧
          scope' = extend scope (as.map declaration) := by
  induction as generalizing scope with
  | nil => simp
  | cons a as ih =>
    have hmem : ∀ x, x ∈ namesAt (extend scope [declaration a]) level ↔
        x = (declaration a).name ∨ x ∈ namesAt scope level := fun x => by
      rw [mem_namesAt_extend (by simp [hlevel])]
      simp
    rw [List.flatMap_cons, applyAll_append_eq_ok_iff]
    constructor
    · rintro ⟨s, hs, has⟩
      obtain ⟨hp, hnew, rfl⟩ := (hone a scope s).mp hs
      obtain ⟨hps, hnodup, hnews, rfl⟩ := ih.mp has
      simp only [hmem, not_or] at hnews
      refine ⟨by simpa using ⟨hp, hps⟩, ?_, ?_, by simp⟩
      · refine List.nodup_cons.mpr ⟨fun hx => ?_, hnodup⟩
        obtain ⟨b, hb, hname⟩ := List.mem_map.mp hx
        exact (hnews b hb).1 hname
      · simpa using ⟨hnew, fun b hb => (hnews b hb).2⟩
    · rintro ⟨hps, hnodup, hnews, rfl⟩
      obtain ⟨hname, hnodup⟩ := List.nodup_cons.mp hnodup
      refine ⟨_, (hone a scope _).mpr ⟨hps a (by simp), hnews a (by simp), rfl⟩, ?_⟩
      refine ih.mpr ⟨fun b hb => hps b (by simp [hb]), hnodup, fun b hb => ?_, by simp⟩
      rw [hmem, not_or]
      refine ⟨fun heq => hname ?_, hnews b (by simp [hb])⟩
      exact List.mem_map.mpr ⟨b, hb, heq⟩

/-- The rules for the constants and variables that a block declares itself, apart from those
about their names being new. -/
structure OwnRules (constants : List Constant) (vars : List Variable) : Prop where
  constants_free : ∀ c ∈ constants, isReserved c.name = false
  variables_free : ∀ v ∈ vars, isReserved v.name = false
  sizes : ∀ v ∈ vars, v.HasSizeInRange

theorem level_of_mem_ownDeclarations {constants : List Constant} {vars : List Variable}
    {d : Declaration} (h : d ∈ ownDeclarations level constants vars) : d.level = level := by
  rcases List.mem_append.mp h with h | h
  · obtain ⟨c, -, rfl⟩ := List.mem_map.mp h
    rfl
  · obtain ⟨v, -, rfl⟩ := List.mem_map.mp h
    rfl

theorem kind_of_mem_ownDeclarations {constants : List Constant} {vars : List Variable}
    {d : Declaration} (h : d ∈ ownDeclarations level constants vars) :
    d.kind ≠ .procedure := by
  rcases List.mem_append.mp h with h | h
  · obtain ⟨c, -, rfl⟩ := List.mem_map.mp h
    exact nofun
  · obtain ⟨v, -, rfl⟩ := List.mem_map.mp h
    exact nofun

theorem applyAll_constants_iff (constants : List Constant) :
    applyAll scope (constants.flatMap (Constant.operations (level + 1))) = .ok scope' ↔
      (∀ c ∈ constants, isReserved c.name = false) ∧ (constants.map Constant.name).Nodup ∧
        (∀ c ∈ constants, c.name ∉ namesAt scope level) ∧
          scope' = extend scope (constants.map (Constant.declaration level)) :=
  applyAll_flatMap_iff (Constant.declaration level) (fun _ => rfl)
    (fun _ _ _ => Constant.applyAll_iff) constants

theorem applyAll_variables_iff (vars : List Variable) :
    applyAll scope (vars.flatMap (Variable.operations (level + 1))) = .ok scope' ↔
      (∀ v ∈ vars, isReserved v.name = false ∧ v.HasSizeInRange) ∧
        (vars.map Variable.name).Nodup ∧ (∀ v ∈ vars, v.name ∉ namesAt scope level) ∧
          scope' = extend scope (vars.map (Variable.declaration level)) :=
  applyAll_flatMap_iff (Variable.declaration level) (fun _ => rfl)
    (fun _ _ _ => Variable.applyAll_iff) vars

/-- The constants and variables of a block are declared if they keep the rules and have
different names that are new at their level. -/
theorem applyAll_own_iff (constants : List Constant) (vars : List Variable) :
    applyAll scope (constants.flatMap (Constant.operations (level + 1)) ++
        vars.flatMap (Variable.operations (level + 1))) = .ok scope' ↔
      OwnRules constants vars ∧
        ((ownDeclarations level constants vars).map Declaration.name).Nodup ∧
          (∀ d ∈ ownDeclarations level constants vars, d.name ∉ namesAt scope level) ∧
            scope' = extend scope (ownDeclarations level constants vars) := by
  have hmem : ∀ x, x ∈ namesAt (extend scope (constants.map (Constant.declaration level))) level ↔
      x ∈ constants.map Constant.name ∨ x ∈ namesAt scope level := fun x => by
    rw [mem_namesAt_extend (by simp [Constant.declaration])]
    simp [Constant.declaration]
  have hnames : (ownDeclarations level constants vars).map Declaration.name =
      constants.map Constant.name ++ vars.map Variable.name := by
    simp [ownDeclarations, Constant.declaration, Variable.declaration, Function.comp_def]
  have hnew : (∀ d ∈ ownDeclarations level constants vars, d.name ∉ namesAt scope level) ↔
      (∀ c ∈ constants, c.name ∉ namesAt scope level) ∧
        ∀ v ∈ vars, v.name ∉ namesAt scope level := by
    simp [ownDeclarations, or_imp, forall_and, Constant.declaration, Variable.declaration]
  rw [hnames, hnew, List.nodup_append, applyAll_append_eq_ok_iff]
  constructor
  · rintro ⟨s, hs, hvs⟩
    obtain ⟨hcfree, hcnodup, hcnew, rfl⟩ := (applyAll_constants_iff constants).mp hs
    obtain ⟨hv, hvnodup, hvnew, rfl⟩ := (applyAll_variables_iff vars).mp hvs
    simp only [hmem, not_or] at hvnew
    refine ⟨⟨hcfree, fun v hv' => (hv v hv').1, fun v hv' => (hv v hv').2⟩,
      ⟨hcnodup, hvnodup, ?_⟩, ⟨hcnew, fun v hv' => (hvnew v hv').2⟩,
      by simp [ownDeclarations]⟩
    rintro x hx y hy rfl
    obtain ⟨v, hv', rfl⟩ := List.mem_map.mp hy
    exact (hvnew v hv').1 hx
  · rintro ⟨⟨hcfree, hvfree, hsizes⟩, ⟨hcnodup, hvnodup, hdisjoint⟩, ⟨hcnew, hvnew⟩, rfl⟩
    refine ⟨_, (applyAll_constants_iff constants).mpr ⟨hcfree, hcnodup, hcnew, rfl⟩, ?_⟩
    refine (applyAll_variables_iff vars).mpr
      ⟨fun v hv => ⟨hvfree v hv, hsizes v hv⟩, hvnodup, fun v hv => ?_, by simp [ownDeclarations]⟩
    rw [hmem, not_or]
    exact ⟨fun hx => hdisjoint v.name hx v.name (List.mem_map.mpr ⟨v, hv, rfl⟩) rfl, hvnew v hv⟩

/-! ### Procedures and their bodies -/

/-- A procedure cannot be declared inside a procedure. -/
theorem Procedures.eq_done {procedures : Procedures} {depth : Nat}
    (h : applyAll scope (procedures.operations (depth + 2)) = .ok scope') :
    procedures = .done := by
  cases procedures with
  | done => rfl
  | next name block more =>
    obtain ⟨constants, vars, procedures, body⟩ := block
    obtain ⟨s, -, h⟩ := applyAll_cons_eq_ok_iff.mp h
    obtain ⟨s', hblock, -⟩ := applyAll_append_eq_ok_iff.mp h
    obtain ⟨s'', henter, -⟩ := applyAll_cons_eq_ok_iff.mp hblock
    simp [Operation.apply, Scope.maxDepth] at henter

theorem useAll_eq_ok_iff {uses : List Occurrence} :
    useAll scope uses = .ok scope' ↔ useAll scope uses = .ok scope ∧ scope' = scope := by
  constructor
  · intro h
    have := scope_of_useAll h
    exact ⟨this ▸ h, this⟩
  · rintro ⟨h, rfl⟩
    exact h

/-- Leaving the body of a procedure forgets what the body has declared. -/
theorem close_extend {name : String} {constants : List Constant} {vars : List Variable}
    (level' : Nat) :
    (extend (extend scope [procedureDeclaration level name])
      (ownDeclarations level' constants vars)).close =
        extend scope [procedureDeclaration level name] := by
  have hown : ∀ d ∈ (ownDeclarations level' constants vars).reverse,
      decide (d.kind ≠ Kind.procedure) = true := fun d hd =>
    decide_eq_true (kind_of_mem_ownDeclarations (List.mem_reverse.mp hd))
  simp only [Scope.close, extend, List.dropWhile_append_of_pos hown]
  rfl

/-- What a block of a program asks of the scope, part by part. -/
theorem Block.applyAll_iff {constants : List Constant} {vars : List Variable}
    {procedures : Procedures} {body : Statement} :
    applyAll scope ((Block.mk constants vars procedures body).operations level) = .ok scope' ↔
      level ≤ Scope.maxDepth ∧ OwnRules constants vars ∧
        ((ownDeclarations level constants vars).map Declaration.name).Nodup ∧
        (∀ d ∈ ownDeclarations level constants vars, d.name ∉ namesAt scope level) ∧
        applyAll (extend scope (ownDeclarations level constants vars))
          (procedures.operations (level + 1)) = .ok scope' ∧
        useAll scope' body.uses = .ok scope' := by
  rw [Block.operations, applyAll_cons_eq_ok_iff, ← List.append_assoc]
  constructor
  · rintro ⟨s, henter, h⟩
    obtain ⟨hlevel, rfl⟩ : level ≤ Scope.maxDepth ∧ s = scope := by
      simp only [Operation.apply] at henter
      split at henter
      · cases henter
      · next h => exact ⟨Nat.not_lt.mp h, (Except.ok.inj henter).symm⟩
    obtain ⟨s', hown, h⟩ := applyAll_append_eq_ok_iff.mp h
    obtain ⟨hrules, hnodup, hnew, rfl⟩ := (applyAll_own_iff constants vars).mp hown
    obtain ⟨s'', hprocedures, hbody⟩ := applyAll_append_eq_ok_iff.mp h
    obtain ⟨hbody, rfl⟩ := useAll_eq_ok_iff.mp hbody
    exact ⟨hlevel, hrules, hnodup, hnew, hprocedures, hbody⟩
  · rintro ⟨hlevel, hrules, hnodup, hnew, hprocedures, hbody⟩
    refine ⟨scope, by simp [Operation.apply, Nat.not_lt.mpr hlevel], ?_⟩
    refine applyAll_append_eq_ok_iff.mpr ⟨_, (applyAll_own_iff constants vars).mpr
      ⟨hrules, hnodup, hnew, rfl⟩, ?_⟩
    exact applyAll_append_eq_ok_iff.mpr ⟨scope', hprocedures, hbody⟩

/-- Behind a block in which no procedure is declared, the scope has the declarations of the
block in front. -/
theorem Block.scope_of_applyAll {constants : List Constant} {vars : List Variable}
    {body : Statement}
    (h : applyAll scope ((Block.mk constants vars .done body).operations level) = .ok scope') :
    scope' = extend scope (ownDeclarations level constants vars) := by
  obtain ⟨-, -, -, -, h, -⟩ := Block.applyAll_iff.mp h
  exact applyAll_nil_eq_ok_iff.mp h

/-- Leaving the body of a procedure restores the scope behind its name. -/
theorem Block.close_of_applyAll {b : Block} {name : String} {level' : Nat}
    (h : applyAll (extend scope [procedureDeclaration level name]) (b.operations (level' + 1)) =
      .ok scope') : scope'.close = extend scope [procedureDeclaration level name] := by
  obtain ⟨constants, vars, procedures, body⟩ := b
  obtain ⟨-, -, -, -, hprocedures, -⟩ := Block.applyAll_iff.mp h
  obtain rfl := Procedures.eq_done hprocedures
  rw [Block.scope_of_applyAll h, close_extend]

/-- What a procedure asks of the scope: its name, then its body. Behind it, only its name is
left. -/
theorem Procedures.applyAll_next_iff {name : String} {constants : List Constant}
    {vars : List Variable} {procedures more : Procedures} {body : Statement} :
    applyAll scope ((Procedures.next name (.mk constants vars procedures body) more).operations
        (level + 1)) = .ok scope' ↔
      (isReserved name = false ∧ name ∉ namesAt scope level) ∧ procedures = .done ∧
        (∃ s, applyAll (extend scope [procedureDeclaration level name])
          ((Block.mk constants vars .done body).operations (level + 1)) = .ok s) ∧
        applyAll (extend scope [procedureDeclaration level name]) (more.operations (level + 1)) =
          .ok scope' := by
  rw [Procedures.operations, applyAll_cons_eq_ok_iff]
  constructor
  · rintro ⟨s, hname, h⟩
    obtain ⟨hr, hx, rfl⟩ := declareName_eq_ok_iff.mp hname
    obtain ⟨s', hblock, h⟩ := applyAll_append_eq_ok_iff.mp h
    obtain ⟨s'', hclose, hmore⟩ := applyAll_cons_eq_ok_iff.mp h
    obtain rfl : s'' = s'.close := (Except.ok.inj hclose).symm
    have hrestored := Block.close_of_applyAll hblock
    obtain ⟨-, -, -, -, hprocedures, -⟩ := Block.applyAll_iff.mp hblock
    obtain rfl := Procedures.eq_done hprocedures
    exact ⟨⟨hr, hx⟩, rfl, ⟨s', hblock⟩, hrestored ▸ hmore⟩
  · rintro ⟨⟨hr, hx⟩, rfl, ⟨s, hblock⟩, hmore⟩
    refine ⟨_, declareName_eq_ok_iff.mpr ⟨hr, hx, rfl⟩, ?_⟩
    refine applyAll_append_eq_ok_iff.mpr ⟨s, hblock, ?_⟩
    refine applyAll_cons_eq_ok_iff.mpr ⟨_, rfl, ?_⟩
    exact (Block.close_of_applyAll hblock).symm ▸ hmore

/-- Behind procedures, the scope has their names in front. -/
theorem Procedures.scope_of_applyAll {scope : Scope} {procedures : Procedures}
    (h : applyAll scope (procedures.operations (level + 1)) = .ok scope') :
    scope' = extend scope (procedures.declarations level) := by
  match procedures with
  | .done => exact applyAll_nil_eq_ok_iff.mp h
  | .next name (.mk constants vars procedures body) more =>
    obtain ⟨-, -, -, hmore⟩ := Procedures.applyAll_next_iff.mp h
    rw [more.scope_of_applyAll hmore, extend_extend]
    rfl

end PlZero.Tree
