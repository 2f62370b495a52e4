import PlZero.Proofs.Declarations
import PlZero.Proofs.Items

/-!
# The static rules

What makes a tree a program, beyond the grammar, is said here without a scope that changes
(`Program.Valid`). A place in a program sees two lists of declarations: the local ones of the
procedure that it stands in, and the global ones made before it, among them that of the procedure
itself. A name means the local declaration that bears it, or else the global one (`innermost`), and
each use of a name asks something of that declaration (`Occurrence.Allowed`).

The operations that a tree asks of a scope succeed just if the tree is valid
(`Program.applyAll_iff`), provided that its tokens are those of a text.
-/

namespace PlZero

/-- A kind of declaration allows a use: only variables are stored into, only procedures are called,
and procedures have no value. -/
def Use.Allows : Use → Kind → Prop
  | target, kind => kind = .variable
  | operand, kind => kind ≠ .procedure
  | callee, kind => kind = .procedure

namespace Tree

/-! ### The rules -/

/-- What names mean where the declarations `locals` and `globals` can be seen. -/
def innermost (locals globals : List Declaration) : Names := fun x =>
  (locals.find? fun d => d.name = x).or (globals.find? fun d => d.name = x)

/-- A declaration with a size is used as an array, and no other one is. -/
def Shape.Fits : Shape → Option Nat → Prop
  | plain, size => size = none
  | array, size => size ≠ none
  | called, _ => True

/-- The name means something that may be used like this. -/
def Occurrence.Allowed (names : Names) (o : Occurrence) : Prop :=
  ∃ d, names o.name = some d ∧ o.use.Allows d.kind ∧ o.shape.Fits d.size

/-- No constant and no variable has a reserved name, and every array has an element. -/
structure OwnValid (constants : List Constant) (vars : List Variable) : Prop where
  constants_free : ∀ c ∈ constants, isReserved c.name = false
  variables_free : ∀ v ∈ vars, isReserved v.name = false
  sizes : ∀ v ∈ vars, ∀ n ∈ v.size, 1 ≤ n.value

/-- The body of a procedure, behind the global declarations `globals`: it declares no procedure, has
different names for what it declares, and uses names as they are declared. -/
def Block.ValidBody (globals : List Declaration) : Block → Prop
  | .mk constants vars procedures body =>
    let locals := ownDeclarations 1 constants vars
    procedures = .done ∧ OwnValid constants vars ∧ (locals.map Declaration.name).Nodup ∧
      ∀ o ∈ body.uses, o.Allowed (innermost locals globals)

/-- Procedures behind the global declarations `globals`; each of them can be seen in its own body
and behind it. -/
def Procedures.Valid (globals : List Declaration) : Procedures → Prop
  | .done => True
  | .next name block more =>
    let known := globals ++ [procedureDeclaration 0 name]
    isReserved name = false ∧ block.ValidBody known ∧ more.Valid known

/-- The static rules of a program. Its global names are those of its constants, variables and
procedures, and that of the main procedure. -/
def Program.Valid (p : Program) : Prop :=
  match p.block with
  | .mk constants vars procedures body =>
    let own := .main :: ownDeclarations 0 constants vars
    let globals := own ++ procedures.declarations 0
    OwnValid constants vars ∧ (globals.map Declaration.name).Nodup ∧ procedures.Valid own ∧
      ∀ o ∈ body.uses, o.Allowed (innermost [] globals)

/-! ### What names mean -/

/-- The scope at a place that sees the declarations `locals` and `globals`. -/
abbrev visible (locals globals : List Declaration) : Scope :=
  extend (extend ⟨[]⟩ globals) locals

theorem find?_name_eq_some_iff {ds : List Declaration} (h : (ds.map Declaration.name).Nodup)
    {x : String} {d : Declaration} :
    ds.find? (fun d => d.name = x) = some d ↔ d ∈ ds ∧ d.name = x := by
  constructor
  · intro hfind
    exact ⟨List.mem_of_find?_eq_some hfind, by simpa using List.find?_some hfind⟩
  · rintro ⟨hmem, rfl⟩
    induction ds with
    | nil => cases hmem
    | cons e ds ih =>
      obtain ⟨hnot, hnodup⟩ := List.nodup_cons.mp h
      rcases List.mem_cons.mp hmem with rfl | hmem
      · simp
      · have hne : e.name ≠ d.name := fun heq =>
          hnot (heq ▸ List.mem_map_of_mem hmem)
        simp [hne, ih hnodup hmem]

/-- Declarations with different names may be searched from either end. -/
theorem find?_reverse_name {ds : List Declaration} (h : (ds.map Declaration.name).Nodup)
    (x : String) :
    ds.reverse.find? (fun d => d.name = x) = ds.find? (fun d => d.name = x) := by
  have hreverse : (ds.reverse.map Declaration.name).Nodup := by
    rw [List.map_reverse, List.Nodup, List.pairwise_reverse]
    exact h.imp Ne.symm
  ext d
  simp [find?_name_eq_some_iff h, find?_name_eq_some_iff hreverse]

theorem lookup_visible {locals globals : List Declaration}
    (hlocals : (locals.map Declaration.name).Nodup)
    (hglobals : (globals.map Declaration.name).Nodup) :
    (visible locals globals).lookup = innermost locals globals := by
  funext x
  simp [Scope.lookup, extend, innermost, List.find?_append, find?_reverse_name hlocals,
    find?_reverse_name hglobals]

theorem lookup_globals {globals : List Declaration} (h : (globals.map Declaration.name).Nodup) :
    (extend ⟨[]⟩ globals).lookup = innermost [] globals := by
  have hnone : (([] : List Declaration).map Declaration.name).Nodup := List.nodup_nil
  exact lookup_visible hnone h

/-! ### Uses of names -/

variable {scope : Scope}

theorem resolve_eq_ok_iff {x : String} {use : Use} {d : Declaration} :
    scope.resolve x use = .ok d ↔ scope.lookup x = some d ∧ use.Allows d.kind := by
  simp only [Scope.resolve]
  cases scope.lookup x with
  | none => simp
  | some e =>
    simp only [Option.some.injEq]
    by_cases he : e = d
    · subst he
      cases use <;> cases e.kind <;> simp [Use.Allows]
    · cases use <;> cases e.kind <;> simp [he]

theorem check_eq_ok_iff {o : Occurrence} :
    o.check scope = .ok () ↔ o.Allowed scope.lookup := by
  obtain ⟨x, use, shape⟩ := o
  simp only [Occurrence.check, Occurrence.Allowed]
  cases hres : scope.resolve x use with
  | error e =>
    refine iff_of_false nofun ?_
    rintro ⟨d, hd, huse, -⟩
    rw [resolve_eq_ok_iff.mpr ⟨hd, huse⟩] at hres
    cases hres
  | ok d =>
    obtain ⟨hd, huse⟩ := resolve_eq_ok_iff.mp hres
    have hshape : shape.check scope x = .ok () ↔ shape.Fits d.size := by
      obtain ⟨name, kind, level, size⟩ := d
      cases shape <;> cases size <;>
        simp [Shape.check, Shape.Fits, Scope.checkPlain, Scope.arraySize, hd, Except.map]
    change shape.check scope x = .ok () ↔ _
    rw [hshape]
    constructor
    · exact fun h => ⟨d, hd, huse, h⟩
    · rintro ⟨e, he, -, hfits⟩
      obtain rfl : d = e := Option.some.inj (hd.symm.trans he)
      exact hfits

theorem useAll_eq_ok_iff_allowed {uses : List Occurrence} :
    useAll scope uses = .ok scope ↔ ∀ o ∈ uses, o.Allowed scope.lookup := by
  induction uses with
  | nil => exact iff_of_true rfl (by simp)
  | cons o uses ih =>
    rw [useAll_cons, List.forall_mem_cons, ← check_eq_ok_iff, ← ih]
    cases o.check scope with
    | error e => exact iff_of_false nofun nofun
    | ok u => exact (and_iff_right rfl).symm

/-! ### Declarations -/

theorem OwnValid.iff_rules {constants : List Constant} {vars : List Variable}
    (h : ∀ v ∈ vars, ∀ n ∈ v.size, n.value ≤ maxNumber) :
    OwnRules constants vars ↔ OwnValid constants vars := by
  constructor
  · rintro ⟨hc, hv, hsizes⟩
    exact ⟨hc, hv, fun v hmem n hn => (hsizes v hmem n hn).1⟩
  · rintro ⟨hc, hv, hsizes⟩
    exact ⟨hc, hv, fun v hmem n hn => ⟨hsizes v hmem n hn, h v hmem n hn⟩⟩

/-- The sizes of variables are in range if their tokens are those of a text. -/
theorem size_le_of_wellFormed (vars : List Variable)
    (h : ∀ t ∈ listTokens .var Variable.tokens vars, t.WellFormed) :
    ∀ v ∈ vars, ∀ n ∈ v.size, n.value ≤ maxNumber := by
  intro v hv n hn
  have htoken : n.token ∈ v.tokens := by
    simp [Variable.tokens, sizeTokens, Option.mem_def.mp hn]
  exact (h _ (mem_listTokens hv htoken)).2

/-! ### Blocks and procedures -/

/-- A block without procedures is accepted at a level at which nothing is declared yet if its own
declarations and its body keep the rules. -/
theorem applyAll_body_iff {globals : List Declaration} {constants : List Constant}
    {vars : List Variable} {body : Statement} (hlevel : ∀ d ∈ globals, d.level = 0)
    (hglobals : (globals.map Declaration.name).Nodup)
    (hsizes : ∀ v ∈ vars, ∀ n ∈ v.size, n.value ≤ maxNumber) :
    (∃ s, applyAll (extend ⟨[]⟩ globals)
      ((Block.mk constants vars .done body).operations 1) = .ok s) ↔
        (Block.mk constants vars .done body).ValidBody globals := by
  have hnames : namesAt (extend ⟨[]⟩ globals) 1 = [] :=
    namesAt_extend_of_ne fun d hd => by simp [hlevel d hd]
  simp only [Block.applyAll_iff, Procedures.operations, applyAll_nil_eq_ok_iff, hnames,
    OwnValid.iff_rules hsizes, Block.ValidBody]
  constructor
  · rintro ⟨s, -, hown, hnodup, -, rfl, hbody⟩
    refine ⟨trivial, hown, hnodup, ?_⟩
    rwa [useAll_eq_ok_iff_allowed, lookup_visible hnodup hglobals] at hbody
  · rintro ⟨-, hown, hnodup, hbody⟩
    refine ⟨_, by decide, hown, hnodup, by simp, rfl, ?_⟩
    rwa [useAll_eq_ok_iff_allowed, lookup_visible hnodup hglobals]

theorem nodup_map_name_append_singleton {globals : List Declaration} {d : Declaration} :
    ((globals ++ [d]).map Declaration.name).Nodup ↔
      (globals.map Declaration.name).Nodup ∧ d.name ∉ globals.map Declaration.name := by
  simp only [List.map_append, List.map_cons, List.map_nil, List.nodup_append, List.nodup_cons,
    List.not_mem_nil, not_false_eq_true, List.nodup_nil, and_self, true_and]
  grind

/-- Behind global declarations with different names, procedures are accepted if they have new and
different names and are valid. -/
theorem Procedures.applyAll_iff {globals : List Declaration} (procedures : Procedures)
    (hlevel : ∀ d ∈ globals, d.level = 0) (hglobals : (globals.map Declaration.name).Nodup)
    (htokens : ∀ t ∈ procedures.tokens, t.WellFormed) :
    (∃ s, applyAll (extend ⟨[]⟩ globals) (procedures.operations 1) = .ok s) ↔
      ((globals ++ procedures.declarations 0).map Declaration.name).Nodup ∧
        procedures.Valid globals := by
  match procedures with
  | .done => simp [Procedures.operations, Procedures.declarations, Procedures.Valid, hglobals]
  | .next name (.mk constants vars inner body) more =>
    have hnames : ∀ x, x ∈ namesAt (extend ⟨[]⟩ globals) 0 ↔ x ∈ globals.map Declaration.name :=
      fun x => by
        rw [mem_namesAt_extend hlevel]
        simp [namesAt]
    have hlevel' : ∀ d ∈ globals ++ [procedureDeclaration 0 name], d.level = 0 := by
      simpa [or_imp, forall_and, procedureDeclaration] using hlevel
    have hbound := size_le_of_wellFormed vars fun t ht =>
      htokens t (by simp [Procedures.tokens, Block.tokens, ht])
    have hmore : ∀ t ∈ more.tokens, t.WellFormed := fun t ht =>
      htokens t (by simp [Procedures.tokens, ht])
    have hassoc : globals ++ Procedures.declarations 0 (.next name
        (.mk constants vars inner body) more) =
        (globals ++ [procedureDeclaration 0 name]) ++ more.declarations 0 := by
      simp [Procedures.declarations]
    simp only [Procedures.applyAll_next_iff, extend_extend, hnames, hassoc, Procedures.Valid]
    constructor
    · rintro ⟨s, ⟨hfree, hnew⟩, rfl, hblock, hrest⟩
      have hknown := nodup_map_name_append_singleton (d := procedureDeclaration 0 name).mpr
        ⟨hglobals, hnew⟩
      obtain ⟨hnodup, hvalid⟩ := (more.applyAll_iff hlevel' hknown hmore).mp ⟨s, hrest⟩
      exact ⟨hnodup, hfree, (applyAll_body_iff hlevel' hknown hbound).mp hblock, hvalid⟩
    · rintro ⟨hnodup, hfree, hblock, hvalid⟩
      have hknown : ((globals ++ [procedureDeclaration 0 name]).map Declaration.name).Nodup := by
        rw [List.map_append] at hnodup
        exact (List.nodup_append.mp hnodup).1
      obtain ⟨-, hnew⟩ := nodup_map_name_append_singleton.mp hknown
      obtain rfl : inner = .done := hblock.1
      obtain ⟨s, hrest⟩ := (more.applyAll_iff hlevel' hknown hmore).mpr ⟨hnodup, hvalid⟩
      exact ⟨s, ⟨hfree, hnew⟩, rfl, (applyAll_body_iff hlevel' hknown hbound).mpr hblock, hrest⟩

/-- **The operations of a tree succeed just if the static rules hold**, for a tree whose tokens are
those of a text. -/
theorem Program.applyAll_iff (p : Program) (htokens : ∀ t ∈ p.tokens, t.WellFormed) :
    (∃ s, applyAll .initial p.operations = .ok s) ↔ p.Valid := by
  obtain ⟨⟨constants, vars, procedures, body⟩⟩ := p
  have hbound := size_le_of_wellFormed vars fun t ht =>
    htokens t (by simp [Program.tokens, Block.tokens, ht])
  have hprocedures : ∀ t ∈ procedures.tokens, t.WellFormed := fun t ht =>
    htokens t (by simp [Program.tokens, Block.tokens, ht])
  have hown : extend .initial (ownDeclarations 0 constants vars) =
      extend ⟨[]⟩ (.main :: ownDeclarations 0 constants vars) := by
    simp [extend, Scope.initial]
  have hlevel : ∀ d ∈ Declaration.main :: ownDeclarations 0 constants vars, d.level = 0 := by
    simpa [Declaration.main] using fun d hd => level_of_mem_ownDeclarations hd
  have hnodup : ((Declaration.main :: ownDeclarations 0 constants vars).map
      Declaration.name).Nodup ↔
        ((ownDeclarations 0 constants vars).map Declaration.name).Nodup ∧
          ∀ d ∈ ownDeclarations 0 constants vars, d.name ∉ namesAt .initial 0 := by
    have hmain : namesAt .initial 0 = ["main"] := rfl
    rw [List.map_cons, List.nodup_cons, and_comm, hmain]
    simp [Declaration.main]
  simp only [Program.operations, Block.applyAll_iff, OwnValid.iff_rules hbound, hown, Program.Valid]
  constructor
  · rintro ⟨s, -, hvalid, hdistinct, hnew, happly, hbody⟩
    obtain ⟨hglobals, hprocs⟩ := (procedures.applyAll_iff hlevel
      (hnodup.mpr ⟨hdistinct, hnew⟩) hprocedures).mp ⟨s, happly⟩
    rw [Procedures.scope_of_applyAll happly, extend_extend] at hbody
    refine ⟨hvalid, hglobals, hprocs, ?_⟩
    rwa [useAll_eq_ok_iff_allowed, lookup_globals hglobals] at hbody
  · rintro ⟨hvalid, hglobals, hprocs, hbody⟩
    have hfirst : ((Declaration.main :: ownDeclarations 0 constants vars).map
        Declaration.name).Nodup := by
      rw [List.map_append] at hglobals
      exact (List.nodup_append.mp hglobals).1
    obtain ⟨hdistinct, hnew⟩ := hnodup.mp hfirst
    obtain ⟨s, happly⟩ := (procedures.applyAll_iff hlevel hfirst hprocedures).mpr
      ⟨hglobals, hprocs⟩
    refine ⟨s, by decide, hvalid, hdistinct, hnew, happly, ?_⟩
    rw [Procedures.scope_of_applyAll happly, extend_extend]
    rwa [useAll_eq_ok_iff_allowed, lookup_globals hglobals]

end Tree

end PlZero
