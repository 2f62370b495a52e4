import PlZero.Proofs.Blame
import PlZero.Proofs.Translation

/-!
# The first rule that is broken

`Program.Valid` says which trees keep the static rules. A text that breaks several of them is
refused for one, and which one that is depends on the order in which they are looked at. So the
rules are listed here for a tree, each with the place that it is for, in the order of the text
(`Program.rules`): at a declaration, that the name is not reserved, that it is new, and the size; at
a procedure, that it is one of the program itself, before anything of its body; at a use, that the
name means something, that this may be used so, and that it is an array or none, before anything of
the index. What a name means is found among the declarations of the block so far and those around
it; no scope changes on the way.

The operations of a tree stop at the first rule that is broken, and succeed if there is none
(`Program.decides`), and so does the compiler, for every text that consists of the tokens of the
tree (`failure_of_sentence`).
-/

namespace PlZero

instance (use : Use) (kind : Kind) : Decidable (use.Allows kind) :=
  match use with
  | .target => inferInstanceAs (Decidable (kind = .variable))
  | .operand => inferInstanceAs (Decidable (kind ≠ .procedure))
  | .callee => inferInstanceAs (Decidable (kind = .procedure))

namespace Tree

/-! ### The rules -/

/-- A static rule for one place of a text. -/
inductive Rule
  /-- The name is not reserved. -/
  | free (x : String)
  /-- The name is none of those that the block has declared. -/
  | new (x : String) (taken : List String)
  /-- An array can have this many elements. -/
  | size (n : Int)
  /-- A procedure may be declared at the level. -/
  | outermost (level : Nat)
  /-- The name means something. -/
  | defined (x : String) (meaning : Option Declaration)
  /-- What the name means may be used in this way. -/
  | role (x : String) (use : Use) (meaning : Option Declaration)
  /-- What the name means is not an array. -/
  | plain (x : String) (meaning : Option Declaration)
  /-- What the name means is an array. -/
  | array (x : String) (meaning : Option Declaration)

namespace Rule

def Holds : Rule → Prop
  | free x => isReserved x = false
  | new x taken => x ∉ taken
  | size n => 1 ≤ n ∧ n ≤ maxNumber
  | outermost level => level = 0
  | defined _ meaning => meaning ≠ none
  | role _ use meaning => ∀ d ∈ meaning, use.Allows d.kind
  | plain _ meaning => ∀ d ∈ meaning, d.size = none
  | array _ meaning => ∀ d ∈ meaning, d.size ≠ none

instance : DecidablePred Holds
  | free x => inferInstanceAs (Decidable (isReserved x = false))
  | new x taken => inferInstanceAs (Decidable (x ∉ taken))
  | size n => inferInstanceAs (Decidable (1 ≤ n ∧ n ≤ maxNumber))
  | outermost level => inferInstanceAs (Decidable (level = 0))
  | defined _ meaning => inferInstanceAs (Decidable (meaning ≠ none))
  | role _ use meaning => inferInstanceAs (Decidable (∀ d ∈ meaning, use.Allows d.kind))
  | plain _ meaning => inferInstanceAs (Decidable (∀ d ∈ meaning, d.size = none))
  | array _ meaning => inferInstanceAs (Decidable (∀ d ∈ meaning, d.size ≠ none))

/-- What a text is refused for that breaks the rule. -/
def error : Rule → StaticError
  | free x => .reserved x
  | new x _ => .duplicate x
  | size n => .sizeOutOfRange n
  | outermost _ => .nestedTooDeep
  | defined x _ => .undefined x
  | role x use _ => use.refusal x
  | plain x _ => .arrayWithoutIndex x
  | array x _ => .notArray x

end Rule

/-- The rules for the shape in which a name is used that means `meaning`. -/
def Shape.rules (x : String) (meaning : Option Declaration) : Shape → List Rule
  | plain => [.plain x meaning]
  | array => [.array x meaning]
  | called => []

/-- The rules for a use of a name. -/
def Occurrence.rules (names : Names) (o : Occurrence) : List Rule :=
  let meaning := names o.name
  .defined o.name meaning :: .role o.name o.use meaning :: o.shape.rules o.name meaning

/-- The rules for a name that a block declares behind its declarations `own`. -/
def nameRules (own : List Declaration) (x : String) : List Rule :=
  [.free x, .new x (own.map Declaration.name)]

def Constant.rules (own : List Declaration) (c : Constant) : List Rule :=
  nameRules own c.name

def Variable.rules (own : List Declaration) (v : Variable) : List Rule :=
  nameRules own v.name ++ (v.size.map fun n => Rule.size n.value).toList

/-- The rules for declarations behind the declarations `own`, each of which stands behind those in
front of it as well. -/
def listRules {α : Type} (rules : List Declaration → α → List Rule) (declaration : α → Declaration)
    (own : List Declaration) : List α → List Rule
  | [] => []
  | a :: as => rules own a ++ listRules rules declaration (own ++ [declaration a]) as

mutual

/-- The rules for a block at a level, behind the declarations `own` of the same block and `outer` of
those around it. -/
def Block.rules (level : Nat) (own outer : List Declaration) : Block → List Rule
  | .mk constants vars procedures body =>
    let withConstants := own ++ constants.map (Constant.declaration level)
    let withVariables := withConstants ++ vars.map (Variable.declaration level)
    let all := withVariables ++ procedures.declarations level
    listRules Constant.rules (Constant.declaration level) own constants ++
      (listRules Variable.rules (Variable.declaration level) withConstants vars ++
        (procedures.rules level withVariables outer ++
          body.uses.flatMap (Occurrence.rules (innermost all outer))))

/-- The rules for procedures of a block. Each may use itself and those in front of it. -/
def Procedures.rules (level : Nat) (own outer : List Declaration) : Procedures → List Rule
  | .done => []
  | .next name block more =>
    let known := own ++ [procedureDeclaration level name]
    nameRules own name ++ .outermost level ::
      (block.rules (level + 1) [] (known ++ outer) ++ more.rules level known outer)

end

/-- The static rules for a program, in the order of its text. -/
def Program.rules (p : Program) : List Rule :=
  p.block.rules 0 [.main] []

/-! ### Looking at rules one after the other -/

/-- The result is that of looking at the rules in order: all of them hold, and then the scope is as
`post` says, or it is the error of the first one that does not. -/
def Decides (rules : List Rule) (post : Scope → Prop) : Except StaticError Scope → Prop
  | .ok scope => (∀ r ∈ rules, r.Holds) ∧ post scope
  | .error e => ∃ before r after, rules = before ++ r :: after ∧ (∀ q ∈ before, q.Holds) ∧
      ¬ r.Holds ∧ e = r.error

namespace Decides

variable {rules more : List Rule} {r : Rule} {post post' : Scope → Prop} {scope : Scope}
  {result : Except StaticError Scope} {next : Scope → Except StaticError Scope}

theorem nil (h : post scope) : Decides [] post (.ok scope) :=
  ⟨by simp, h⟩

/-- A rule that is broken is the last one that is looked at. -/
theorem broken (h : ¬ r.Holds) : Decides (r :: rules) post (.error r.error) :=
  ⟨[], r, rules, rfl, by simp, h, rfl⟩

theorem cons (hr : r.Holds) (h : Decides rules post result) : Decides (r :: rules) post result := by
  cases result with
  | ok scope => exact ⟨List.forall_mem_cons.mpr ⟨hr, h.1⟩, h.2⟩
  | error e =>
    obtain ⟨before, r', after, rfl, hbefore, hbroken⟩ := h
    exact ⟨r :: before, r', after, rfl, List.forall_mem_cons.mpr ⟨hr, hbefore⟩, hbroken⟩

/-- What is done next looks at the rules behind. -/
theorem bind (h : Decides rules post result)
    (hnext : ∀ scope, post scope → Decides more post' (next scope)) :
    Decides (rules ++ more) post' (result >>= next) := by
  cases result with
  | ok scope =>
    obtain ⟨hrules, hpost⟩ := h
    have hmore := hnext scope hpost
    change Decides (rules ++ more) post' (next scope)
    induction rules with
    | nil => exact hmore
    | cons r rules ih =>
      obtain ⟨hr, hrules⟩ := List.forall_mem_cons.mp hrules
      exact (ih hrules).cons hr
  | error e =>
    obtain ⟨before, r, after, rfl, hbefore, hbroken⟩ := h
    exact ⟨before, r, after ++ more, by simp, hbefore, hbroken⟩

/-- What is done last may look at nothing more. -/
theorem last (h : Decides rules post result)
    (hnext : ∀ scope, post scope → Decides [] post' (next scope)) :
    Decides rules post' (result >>= next) := by
  rw [← List.append_nil rules]
  exact h.bind hnext

/-- What is known of the result may be added to what is known of the scope. -/
theorem imp (h : Decides rules post result)
    (hpost : ∀ scope, result = .ok scope → post scope → post' scope) :
    Decides rules post' result := by
  cases result with
  | ok scope => exact ⟨h.1, hpost scope rfl h.2⟩
  | error e => exact h

end Decides

/-! ### What a place sees -/

variable {level : Nat} {own outer : List Declaration} {scope : Scope} {x : String}

/-- The scope is that of a place in a block of the level, behind the declarations `own` of the block
and `outer` of those around it. -/
structure Sees (level : Nat) (own outer : List Declaration) (scope : Scope) : Prop where
  scope_eq : scope = visible own outer
  level_own : ∀ d ∈ own, d.level = level
  level_outer : ∀ d ∈ outer, d.level ≠ level
  own_nodup : (own.map Declaration.name).Nodup
  outer_nodup : (outer.map Declaration.name).Nodup

namespace Sees

theorem initial : Sees 0 [.main] [] .initial where
  scope_eq := rfl
  level_own := by simp [Declaration.main]
  level_outer := by simp
  own_nodup := by simp
  outer_nodup := by simp

theorem mem_namesAt_iff (h : Sees level own outer scope) :
    x ∈ namesAt scope level ↔ x ∈ own.map Declaration.name := by
  rw [h.scope_eq, mem_namesAt_extend h.level_own, namesAt_extend_of_ne h.level_outer]
  simp [namesAt]

theorem lookup_eq (h : Sees level own outer scope) : scope.lookup = innermost own outer := by
  rw [h.scope_eq, lookup_visible h.own_nodup h.outer_nodup]

/-- Behind a new declaration of the block. -/
theorem push {d : Declaration} (h : Sees level own outer scope) (hlevel : d.level = level)
    (hnew : d.name ∉ own.map Declaration.name) :
    Sees level (own ++ [d]) outer (extend scope [d]) where
  scope_eq := by rw [h.scope_eq, extend_extend]
  level_own := by simpa [or_imp, forall_and, hlevel] using h.level_own
  level_outer := h.level_outer
  own_nodup := nodup_map_name_append_singleton.mpr ⟨h.own_nodup, hnew⟩
  outer_nodup := h.outer_nodup

/-- At the beginning of the body of a procedure, all that the program has declared stands around.
-/
theorem enter (h : Sees 0 own [] scope) : Sees 1 [] (own ++ []) scope where
  scope_eq := by rw [h.scope_eq, List.append_nil, visible, visible, extend_nil, extend_nil]
  level_own := by simp
  level_outer := by simpa using fun d hd => by simp [h.level_own d hd]
  own_nodup := by simp
  outer_nodup := by simpa using h.own_nodup

end Sees

/-! ### Declarations -/

/-- Declaring a name looks at whether it is free, and then at whether it is new. -/
theorem decides_declare (h : Sees level own outer scope) (kind : Kind) :
    Decides (nameRules own x)
      (fun s => s = extend scope [⟨x, kind, level, none⟩] ∧ x ∉ own.map Declaration.name)
      (declareName scope x kind (level + 1)) := by
  by_cases hfree : (Rule.free x).Holds
  · refine .cons hfree ?_
    by_cases hnew : (Rule.new x (own.map Declaration.name)).Holds
    · have hok : declareName scope x kind (level + 1) =
          .ok (extend scope [⟨x, kind, level, none⟩]) :=
        declareName_eq_ok_iff.mpr ⟨hfree, mt h.mem_namesAt_iff.mp hnew, rfl⟩
      rw [hok]
      exact .cons hnew (.nil ⟨rfl, hnew⟩)
    · have htaken : declareName scope x kind (level + 1) = .error (.duplicate x) := by
        cases hresult : declareName scope x kind (level + 1) with
        | ok s =>
          obtain ⟨-, hx, -⟩ := declareName_eq_ok_iff.mp hresult
          exact absurd (mt h.mem_namesAt_iff.mpr hx) hnew
        | error e =>
          cases declareName_error hresult with
          | reserved _ hreserved => rw [hfree] at hreserved; cases hreserved
          | duplicate => rfl
          | undefined huse | kind huse => cases huse
          | notArray hslot => cases hslot
          | arrayWithoutIndex hslot => obtain ⟨_, hslot | hslot⟩ := hslot <;> cases hslot
      rw [htaken]
      exact .broken hnew
  · have hreserved : isReserved x = true := by simpa [Rule.Holds] using hfree
    rw [declareName, if_pos hreserved]
    exact .broken hfree

theorem Constant.decides (h : Sees level own outer scope) (c : Constant) :
    Decides (c.rules own) (Sees level (own ++ [c.declaration level]) outer)
      (applyAll scope (c.operations (level + 1))) := by
  have hdeclare := decides_declare (x := c.name) h .constant
  rw [Constant.operations, applyAll_cons]
  refine hdeclare.last ?_
  rintro _ ⟨rfl, hnew⟩
  exact .nil (h.push rfl hnew)

/-- An array gets its size when it is declared, if this is in range. -/
theorem decides_size (scope : Scope) (level : Nat) (x : String) (n : Int) :
    Decides [.size n] (· = extend scope [⟨x, .variable, level, some n.toNat⟩])
      ((Operation.size n).apply (extend scope [⟨x, .variable, level, none⟩])) := by
  by_cases hsize : (Rule.size n).Holds
  · rw [Operation.apply, recordSize_extend.mpr ⟨hsize, rfl⟩]
    exact .cons hsize (.nil rfl)
  · have hout : (extend scope [⟨x, .variable, level, none⟩]).recordSize n =
        .error (.sizeOutOfRange n) :=
      (Scope.recordSize_eq _ n).trans (if_neg hsize)
    rw [Operation.apply, hout]
    exact .broken hsize

theorem Variable.decides (h : Sees level own outer scope) (v : Variable) :
    Decides (v.rules own) (Sees level (own ++ [v.declaration level]) outer)
      (applyAll scope (v.operations (level + 1))) := by
  obtain ⟨x, size⟩ := v
  have hdeclare := decides_declare (x := x) h .variable
  rw [Variable.operations, applyAll_cons, Variable.rules]
  refine hdeclare.bind ?_
  rintro _ ⟨rfl, hnew⟩
  cases size with
  | none => exact .nil (h.push rfl hnew)
  | some n =>
    refine (decides_size scope level x n.value).last ?_
    rintro _ rfl
    exact .nil (h.push rfl hnew)

/-- A list of declarations is looked at one by one. -/
theorem decides_list {α : Type} {rules : List Declaration → α → List Rule}
    {declaration : α → Declaration} {operations : α → List Operation}
    (hone : ∀ {own scope}, Sees level own outer scope → ∀ a,
      Decides (rules own a) (Sees level (own ++ [declaration a]) outer)
        (applyAll scope (operations a)))
    (h : Sees level own outer scope) (as : List α) :
    Decides (listRules rules declaration own as) (Sees level (own ++ as.map declaration) outer)
      (applyAll scope (as.flatMap operations)) := by
  induction as generalizing own scope with
  | nil => exact .nil (by simpa using h)
  | cons a as ih =>
    rw [List.flatMap_cons, applyAll_append, listRules]
    refine (hone h a).bind fun s hs => ?_
    simpa using ih hs

/-! ### Uses -/

theorem Shape.decides {d : Declaration} (h : scope.lookup x = some d) (shape : Shape) :
    Decides (shape.rules x (some d)) (· = scope) ((shape.check scope x).map fun _ => scope) := by
  cases shape with
  | plain =>
    by_cases hplain : (Rule.plain x (some d)).Holds
    · rw [Shape.check, (checkPlain_eq_ok_iff h).mpr (hplain d rfl)]
      exact .cons hplain (.nil rfl)
    · cases hresult : scope.checkPlain x with
      | ok u =>
        have hsize : d.size = none := (checkPlain_eq_ok_iff h).mp hresult
        exact absurd (by simpa [Rule.Holds] using hsize) hplain
      | error e =>
        obtain ⟨-, -, -, rfl⟩ := checkPlain_error hresult
        rw [Shape.check, hresult]
        exact .broken hplain
  | array =>
    cases hsize : d.size with
    | none =>
      have harray : ¬ (Rule.array x (some d)).Holds := fun harray => harray d rfl hsize
      rw [Shape.check, Scope.arraySize, h]
      simp only [hsize]
      exact .broken harray
    | some n =>
      have harray : (Rule.array x (some d)).Holds := by simp [Rule.Holds, hsize]
      rw [Shape.check, (arraySize_eq_ok_iff h).mpr hsize]
      exact .cons harray (.nil rfl)
  | called => exact .nil rfl

/-- A use looks at whether the name means something, then at the way in which it is used, and then
at the shape. -/
theorem Occurrence.decides (o : Occurrence) :
    Decides (o.rules scope.lookup) (· = scope) ((Operation.use o).apply scope) := by
  obtain ⟨x, use, shape⟩ := o
  simp only [Occurrence.rules, Operation.apply, Occurrence.check]
  cases hresult : scope.resolve x use with
  | ok d =>
    obtain ⟨hlookup, hallows⟩ := resolve_eq_ok_iff.mp hresult
    rw [hlookup]
    refine .cons (by simp [Rule.Holds]) (.cons (by simpa [Rule.Holds] using hallows) ?_)
    exact shape.decides hlookup
  | error e =>
    rcases resolve_error hresult with ⟨hnone, rfl⟩ | ⟨d, hlookup, hnot, rfl⟩
    · rw [hnone]
      exact .broken (by simp [Rule.Holds])
    · rw [hlookup]
      exact .cons (by simp [Rule.Holds]) (.broken (by simpa [Rule.Holds] using hnot))

theorem decides_uses (h : Sees level own outer scope) (uses : List Occurrence) :
    Decides (uses.flatMap (Occurrence.rules (innermost own outer))) (· = scope)
      (applyAll scope (uses.map .use)) := by
  induction uses with
  | nil => exact .nil rfl
  | cons o uses ih =>
    rw [List.map_cons, applyAll_cons, List.flatMap_cons, ← h.lookup_eq]
    refine o.decides.bind ?_
    rintro _ rfl
    rw [h.lookup_eq]
    exact ih

/-! ### Blocks and procedures -/

mutual

/-- A block of the program or of a procedure is looked at in the order of its text. -/
theorem Block.decides {level : Nat} {own outer : List Declaration} {scope : Scope} (b : Block)
    (hlevel : level ≤ Scope.maxDepth) (houter : level = 0 → outer = [])
    (h : Sees level own outer scope) :
    Decides (b.rules level own outer) (fun _ => True) (applyAll scope (b.operations level)) := by
  match b with
  | .mk constants vars procedures body =>
    have henter : (Operation.enter level).apply scope = .ok scope := if_neg (Nat.not_lt.mpr hlevel)
    rw [Block.operations, Block.rules, applyAll_cons, henter]
    change Decides _ _ (applyAll scope _)
    rw [applyAll_append]
    refine (decides_list Constant.decides h constants).bind fun s hs => ?_
    rw [applyAll_append]
    refine (decides_list Variable.decides hs vars).bind fun s hs => ?_
    rw [applyAll_append]
    refine (procedures.decides hlevel houter hs).bind fun s hs => ?_
    exact (decides_uses hs body.uses).imp fun _ _ _ => trivial

/-- Behind procedures, only their names have been added to what a place sees. -/
theorem Procedures.decides {level : Nat} {own outer : List Declaration} {scope : Scope}
    (procedures : Procedures) (hlevel : level ≤ Scope.maxDepth) (houter : level = 0 → outer = [])
    (h : Sees level own outer scope) :
    Decides (procedures.rules level own outer)
      (Sees level (own ++ procedures.declarations level) outer)
      (applyAll scope (procedures.operations (level + 1))) := by
  match procedures with
  | .done => exact .nil (by simpa [Procedures.declarations] using h)
  | .next name block more =>
    rw [Procedures.operations, Procedures.rules, applyAll_cons]
    refine (decides_declare h .procedure).bind ?_
    rintro _ ⟨rfl, hnew⟩
    have hknown := h.push (d := procedureDeclaration level name) rfl hnew
    match level with
    | 0 =>
      obtain rfl := houter rfl
      rw [applyAll_append]
      have hblock := block.decides Nat.le.refl nofun hknown.enter
      refine .cons rfl ((hblock.imp fun s hs _ => Block.close_of_applyAll hs).bind fun s hs => ?_)
      have hclose : Operation.close.apply s = .ok _ := congrArg Except.ok hs
      rw [applyAll_cons, hclose]
      have hmore := more.decides hlevel houter hknown
      rwa [List.append_assoc] at hmore
    | level + 1 =>
      -- No block can be entered here, so that nothing of the body is looked at.
      obtain ⟨constants, vars, procedures, body⟩ := block
      have henter (s : Scope) :
          (Operation.enter (level + 2)).apply s = .error .nestedTooDeep := by
        simp [Operation.apply, Scope.maxDepth]
      have houtermost : ¬ (Rule.outermost (level + 1)).Holds := Nat.succ_ne_zero level
      rw [Block.operations, List.cons_append, applyAll_cons]
      change Decides _ _ ((Operation.enter (level + 2)).apply _ >>= _)
      rw [henter]
      exact .broken houtermost

end

/-- **The operations of a tree stop at the first rule that is broken.** -/
theorem Program.decides (p : Program) :
    Decides p.rules (fun _ => True) (applyAll .initial p.operations) :=
  p.block.decides (Nat.zero_le _) (fun _ => rfl) .initial

/-- A tree is valid just if none of its rules is broken, if its tokens are those of a text. -/
theorem Program.valid_iff_rules (p : Program) (htokens : ∀ t ∈ p.tokens, t.WellFormed) :
    p.Valid ↔ ∀ r ∈ p.rules, r.Holds := by
  rw [← p.applyAll_iff htokens]
  have hdecides := p.decides
  cases hresult : applyAll .initial p.operations with
  | ok scope =>
    rw [hresult] at hdecides
    exact iff_of_true ⟨scope, rfl⟩ hdecides.1
  | error e =>
    rw [hresult] at hdecides
    obtain ⟨before, r, after, hrules, -, hbroken, -⟩ := hdecides
    refine iff_of_false (fun ⟨s, hs⟩ => by cases hs) fun hall => hbroken (hall r ?_)
    simp [hrules]

end Tree

/-! ### Texts -/

/-- **The first rule that is broken decides.** A text that consists of the tokens of a tree is
compiled without a failure if the tree breaks no static rule. Otherwise there is a first one in the
order of the text that it breaks, and the failure is the error of this rule. -/
theorem failure_of_sentence (source : Source) (p : Tree.Program) (h : source.Reads p.tokens) :
    (∀ r ∈ p.rules, r.Holds) ∧ ((compile source).deliver .unlimited).failure? = none ∨
      ∃ before r after f, p.rules = before ++ r :: after ∧ (∀ q ∈ before, q.Holds) ∧ ¬ r.Holds ∧
        ((compile source).deliver .unlimited).failure? = some f ∧ f.value = .static r.error := by
  have hdecides := p.decides
  have hrun := Tree.run_program p (Source.reads_iff.mp h)
  cases hresult : Tree.applyAll .initial p.operations with
  | ok scope =>
    rw [hresult] at hdecides hrun
    obtain ⟨s, hs, -⟩ := hrun
    exact .inl ⟨hdecides.1, Source.accepted_iff_finished.mpr ⟨s, hs⟩⟩
  | error e =>
    rw [hresult] at hdecides hrun
    obtain ⟨f, s, hs, hf⟩ := hrun
    obtain ⟨before, r, after, hrules, hbefore, hbroken, rfl⟩ := hdecides
    exact .inr ⟨before, r, after, f, hrules, hbefore, hbroken,
      Source.failure_eq_some_iff.mpr ⟨s, hs⟩, hf⟩

/-- A text that breaks four rules, two of them in places that are not reached. -/
theorem failure_of_sentence_several :
    let source : Source := ⟨"several.pl0", "var x, x size 0; procedure p; procedure q; ; ; call z."⟩
    ∃ p : Tree.Program, source.Reads p.tokens ∧
      (p.rules.filter fun r => ¬ r.Holds).map Tree.Rule.error =
        [.duplicate "x", .sizeOutOfRange 0, .nestedTooDeep, .undefined "z"] ∧
      ((∀ r ∈ p.rules, r.Holds) ∧ ((compile source).deliver .unlimited).failure? = none ∨
        ∃ before r after f, p.rules = before ++ r :: after ∧ (∀ q ∈ before, q.Holds) ∧
          ¬ r.Holds ∧ ((compile source).deliver .unlimited).failure? = some f ∧
            f.value = .static r.error) := by
  let source : Source := ⟨"several.pl0", "var x, x size 0; procedure p; procedure q; ; ; call z."⟩
  let inner : Tree.Block := .mk [] [] .done .empty
  let p : Tree.Program := ⟨.mk [] [⟨"x", none⟩, ⟨"x", some ⟨0, "0"⟩⟩]
    (.next "p" (.mk [] [] (.next "q" inner .done) .empty) .done) (.call "z")⟩
  have hp : source.Reads p.tokens := Source.reads_iff.mpr (by decide +kernel)
  exact ⟨p, hp, by decide +kernel, failure_of_sentence source p hp⟩

end PlZero
