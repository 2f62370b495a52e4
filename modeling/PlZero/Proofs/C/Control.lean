import Mathlib.Control.Monad.Basic
import PlZero.Proofs.C.Code
import PlZero.Proofs.C.Statements

/-!
# What an `if` or a `while` controls

In the C program, an `if` or a `while` controls one statement. What stands in its place is the code
of the body and the semicolon behind it. That is a single statement, perhaps with empty ones behind
it, just if the body is not scattered (`controlled_statement`): it must not be a `readInt` or the
printing of an array, nor an `if` or a `while` with such a body. So `if c then readInt x` reads a
number whether or not `c` holds.
-/

namespace PlZero

namespace Tree

/-! ### Parts of statements -/

mutual

/-- The statement itself, and the statements inside it at any nesting. -/
def Statement.parts : Statement → List Statement
  | .compound first more => .compound first more :: (first.parts ++ more.parts)
  | .ifThen c body => .ifThen c body :: body.parts
  | .whileDo c body => .whileDo c body :: body.parts
  | .empty => [.empty]
  | .assign x value => [.assign x value]
  | .assignElement x index value => [.assignElement x index value]
  | .call p => [.call p]
  | .printName form x => [.printName form x]
  | .printNumber form n => [.printNumber form n]
  | .read form hasInto x => [.read form hasInto x]
  | .printArray x => [.printArray x]
  | .printText content => [.printText content]

def Statements.parts : Statements → List Statement
  | .done => []
  | .next s more => s.parts ++ more.parts

end

/-- The statement is an `if` or a `while`, with this condition and this body. -/
inductive Statement.Controls : Statement → String → Condition → Statement → Prop
  | ifThen (c : Condition) (body : Statement) : Controls (.ifThen c body) "if" c body
  | whileDo (c : Condition) (body : Statement) : Controls (.whileDo c body) "while" c body

theorem Statement.Controls.fragments {t body : Statement} {k : String} {c : Condition}
    (h : t.Controls k c body) (names : Names) :
    ∃ head : Fragment, head.tokens = [.word k, .mark "("] ∧
      t.fragments names = head :: (c.fragments ++ .conditionEnd :: body.fragments names) := by
  cases h with
  | ifThen => exact ⟨.ifHead, rfl, rfl⟩
  | whileDo => exact ⟨.whileHead, rfl, rfl⟩

theorem Statement.Controls.uses {t body : Statement} {k : String} {c : Condition}
    (h : t.Controls k c body) : t.uses = c.uses ++ body.uses := by
  cases h <;> rfl

/-- The fragment begins with a semicolon. -/
def IsClosing (f : Fragment) : Prop :=
  f.beginning = .other ∧ ∃ ts, f.tokens = .mark ";" :: ts

/-- The code of `t` stands in some code, and a fragment that begins with a semicolon follows. -/
def StandsIn (fs : List Fragment) (names : Names) (t : Statement) : Prop :=
  ∃ before f after, fs = before ++ (t.fragments names ++ f :: after) ∧ IsClosing f

theorem StandsIn.behind {fs : List Fragment} {names : Names} {t : Statement}
    (h : StandsIn fs names t) (front : List Fragment) : StandsIn (front ++ fs) names t := by
  obtain ⟨before, f, after, rfl, hf⟩ := h
  exact ⟨front ++ before, f, after, by simp, hf⟩

/-- What follows a statement in a compound one begins with a semicolon. -/
theorem Statements.exists_closing (names : Names) (t : Statements) :
    ∃ f fs, t.fragments names = f :: fs ∧ IsClosing f := by
  cases t with
  | done => exact ⟨.blockEnd, [], rfl, rfl, _, rfl⟩
  | next s more => exact ⟨.blockNext, _, rfl, rfl, _, rfl⟩

theorem StandsIn.before {fs : List Fragment} {names : Names} {t : Statement}
    (h : StandsIn fs names t) (rest : List Fragment) : StandsIn (fs ++ rest) names t := by
  obtain ⟨before, f, after, rfl, hf⟩ := h
  exact ⟨before, f, after ++ rest, by simp, hf⟩

mutual

theorem Statement.standsIn_of_mem_parts (names : Names) (s : Statement) {t : Statement}
    (h : t ∈ s.parts) {f : Fragment} (hf : IsClosing f) (after : List Fragment) :
    StandsIn (s.fragments names ++ f :: after) names t := by
  match s with
  | .compound first more =>
    rcases List.mem_cons.mp h with rfl | h
    · exact ⟨[], f, after, rfl, hf⟩
    rcases List.mem_append.mp h with h | h
    · obtain ⟨g, gs, hmore, hg⟩ := more.exists_closing names
      have hfirst := first.standsIn_of_mem_parts names h hg (gs ++ f :: after)
      simpa [Statement.fragments, hmore] using hfirst.behind [.blockHead]
    · have hmore := more.standsIn_of_mem_parts names h (f :: after)
      simpa [Statement.fragments] using hmore.behind (.blockHead :: first.fragments names)
  | .ifThen c body =>
    rcases List.mem_cons.mp h with rfl | h
    · exact ⟨[], f, after, rfl, hf⟩
    have hbody := body.standsIn_of_mem_parts names h hf after
    have hall := (hbody.behind [.conditionEnd]).behind (.ifHead :: c.fragments)
    simpa [Statement.fragments] using hall
  | .whileDo c body =>
    rcases List.mem_cons.mp h with rfl | h
    · exact ⟨[], f, after, rfl, hf⟩
    have hbody := body.standsIn_of_mem_parts names h hf after
    have hall := (hbody.behind [.conditionEnd]).behind (.whileHead :: c.fragments)
    simpa [Statement.fragments] using hall
  | .empty | .assign _ _ | .assignElement _ _ _ | .call _ | .printName _ _ | .printNumber _ _
  | .read _ _ _ | .printArray _ | .printText _ =>
    obtain rfl := List.mem_singleton.mp h
    exact ⟨[], f, after, rfl, hf⟩

theorem Statements.standsIn_of_mem_parts (names : Names) (s : Statements) {t : Statement}
    (h : t ∈ s.parts) (after : List Fragment) : StandsIn (s.fragments names ++ after) names t := by
  match s with
  | .done => cases h
  | .next s more =>
    rcases List.mem_append.mp h with h | h
    · obtain ⟨g, gs, hmore, hg⟩ := more.exists_closing names
      have hs := s.standsIn_of_mem_parts names h hg (gs ++ after)
      simpa [Statements.fragments, hmore] using hs.behind [.blockNext]
    · have hmore := more.standsIn_of_mem_parts names h after
      simpa [Statements.fragments] using hmore.behind (.blockNext :: s.fragments names)

end

mutual

theorem Statement.uses_of_mem_parts (s : Statement) {t : Statement} (h : t ∈ s.parts) :
    t.uses ⊆ s.uses := by
  match s with
  | .compound first more =>
    rcases List.mem_cons.mp h with rfl | h
    · exact List.Subset.refl _
    rcases List.mem_append.mp h with h | h
    · exact List.subset_append_of_subset_left _ (first.uses_of_mem_parts h)
    · exact List.subset_append_of_subset_right _ (more.uses_of_mem_parts h)
  | .ifThen c body | .whileDo c body =>
    rcases List.mem_cons.mp h with rfl | h
    · exact List.Subset.refl _
    · exact List.subset_append_of_subset_right _ (body.uses_of_mem_parts h)
  | .empty | .assign _ _ | .assignElement _ _ _ | .call _ | .printName _ _ | .printNumber _ _
  | .read _ _ _ | .printArray _ | .printText _ =>
    obtain rfl := List.mem_singleton.mp h
    exact List.Subset.refl _

theorem Statements.uses_of_mem_parts (s : Statements) {t : Statement} (h : t ∈ s.parts) :
    t.uses ⊆ s.uses := by
  match s with
  | .done => cases h
  | .next s more =>
    rcases List.mem_append.mp h with h | h
    · exact List.subset_append_of_subset_left _ (s.uses_of_mem_parts h)
    · exact List.subset_append_of_subset_right _ (more.uses_of_mem_parts h)

end

/-! ### Bodies -/

mutual

/-- The bodies of a block and of its procedures, each with what names mean in it. -/
def Block.bodies (level : Nat) (scope : Scope) : Block → List (Names × Statement)
  | .mk constants vars procedures body =>
    let own := extend scope (ownDeclarations level constants vars)
    let all := extend own (procedures.declarations level)
    procedures.bodies level own ++ [(all.lookup, body)]

def Procedures.bodies (level : Nat) (scope : Scope) : Procedures → List (Names × Statement)
  | .done => []
  | .next name block more =>
    let named := extend scope [procedureDeclaration level name]
    block.bodies (level + 1) named ++ more.bodies level named

end

/-- All statements of a program at any nesting, each with what names mean in it. -/
def Program.statements (p : Program) : List (Names × Statement) :=
  (p.block.bodies 0 .initial).flatMap fun (names, body) => body.parts.map fun t => (names, t)

mutual

theorem Block.standsIn_of_mem_bodies (kind : PlZero.Block) (level : Nat) (scope : Scope)
    (b : Block) {names : Names} {body : Statement} (h : (names, body) ∈ b.bodies level scope) :
    StandsIn (b.fragments kind level scope) names body := by
  match b with
  | .mk constants vars procedures last =>
    simp only [Block.bodies, List.mem_append, List.mem_singleton, Prod.mk.injEq] at h
    refine StandsIn.behind (StandsIn.behind ?_ _) _
    rcases h with h | ⟨rfl, rfl⟩
    · exact (procedures.standsIn_of_mem_bodies level _ h).before _
    · have hclosing : IsClosing (.bodyEnd kind) := by cases kind <;> exact ⟨rfl, _, rfl⟩
      exact StandsIn.behind (StandsIn.behind ⟨[], .bodyEnd kind, [], rfl, hclosing⟩ _) _

theorem Procedures.standsIn_of_mem_bodies (level : Nat) (scope : Scope) (b : Procedures)
    {names : Names} {body : Statement} (h : (names, body) ∈ b.bodies level scope) :
    StandsIn (b.fragments level scope) names body := by
  match b with
  | .done => cases h
  | .next name block more =>
    rcases List.mem_append.mp h with h | h
    · exact ((block.standsIn_of_mem_bodies .procedure (level + 1) _ h).before _).behind [_]
    · exact ((more.standsIn_of_mem_bodies level _ h).behind _).behind [_]

end

/-! ### Names of programs -/

/-- A declared name is no keyword of C. -/
theorem not_mem_keywords_of_free {x : String} (h : isReserved x = false) : x ∉ C.keywords := by
  have hall : ∀ k ∈ C.keywords, isReserved k = true := by decide +kernel
  intro hx
  rw [hall x hx] at h
  cases h

/-- No declaration bears a keyword of C. -/
def Unreserved (ds : List Declaration) : Prop := ∀ d ∈ ds, d.name ∉ C.keywords

theorem OwnValid.unreserved {constants : List Constant} {vars : List Variable}
    (h : OwnValid constants vars) (level : Nat) :
    Unreserved (ownDeclarations level constants vars) := by
  intro d hd
  simp only [ownDeclarations, List.mem_append, List.mem_map] at hd
  rcases hd with ⟨c, hc, rfl⟩ | ⟨v, hv, rfl⟩
  · exact not_mem_keywords_of_free (h.constants_free c hc)
  · exact not_mem_keywords_of_free (h.variables_free v hv)

/-- Names that may be used are declared, and so no keywords of C. -/
theorem freeOfKeywords_of_allowed {locals globals : List Declaration} (hlocals : Unreserved locals)
    (hglobals : Unreserved globals) {uses : List Occurrence}
    (h : ∀ o ∈ uses, o.Allowed (innermost locals globals)) : FreeOfKeywords uses := by
  intro o ho
  obtain ⟨d, hd, -, -⟩ := h o ho
  rcases Option.or_eq_some_iff.mp hd with hfind | ⟨-, hfind⟩
  · have hname : d.name = o.name := by simpa using List.find?_some hfind
    exact hname ▸ hlocals d (List.mem_of_find?_eq_some hfind)
  · have hname : d.name = o.name := by simpa using List.find?_some hfind
    exact hname ▸ hglobals d (List.mem_of_find?_eq_some hfind)

theorem Procedures.freeOfKeywords {globals : List Declaration} (t : Procedures)
    (hglobals : Unreserved globals) (hvalid : t.Valid globals) {level : Nat} {scope : Scope}
    {names : Names} {body : Statement} (h : (names, body) ∈ t.bodies level scope) :
    FreeOfKeywords body.uses := by
  match t with
  | .done => cases h
  | .next name (.mk constants vars procedures last) more =>
    obtain ⟨hfree, ⟨rfl, hown, -, huses⟩, hmore⟩ := hvalid
    have hknown : Unreserved (globals ++ [procedureDeclaration 0 name]) := by
      intro d hd
      rcases List.mem_append.mp hd with hd | hd
      · exact hglobals d hd
      · obtain rfl := List.mem_singleton.mp hd
        exact not_mem_keywords_of_free hfree
    rcases List.mem_append.mp h with h | h
    · obtain ⟨-, rfl⟩ : _ ∧ body = last := by
        simpa [Block.bodies, Procedures.bodies] using h
      exact freeOfKeywords_of_allowed (hown.unreserved 1) hknown huses
    · exact more.freeOfKeywords hknown hmore h

theorem Procedures.unreserved {globals : List Declaration} (t : Procedures)
    (hvalid : t.Valid globals) : Unreserved (t.declarations 0) := by
  match t with
  | .done => exact nofun
  | .next name block more =>
    obtain ⟨hfree, -, hmore⟩ := hvalid
    exact List.forall_mem_cons.mpr ⟨not_mem_keywords_of_free hfree, more.unreserved hmore⟩

/-- The statements of a valid program use no keyword of C as a name. -/
theorem Program.freeOfKeywords (p : Program) (hvalid : p.Valid) {names : Names} {t : Statement}
    (h : (names, t) ∈ p.statements) : FreeOfKeywords t.uses := by
  obtain ⟨⟨constants, vars, procedures, last⟩⟩ := p
  obtain ⟨hown, -, hprocedures, huses⟩ := hvalid
  simp only [Program.statements, List.mem_flatMap, List.mem_map, Prod.mk.injEq] at h
  obtain ⟨⟨names, body⟩, hbody, t, ht, rfl, rfl⟩ := h
  have hunreserved : Unreserved (.main :: ownDeclarations 0 constants vars) :=
    List.forall_mem_cons.mpr ⟨by decide, hown.unreserved 0⟩
  have hfree : FreeOfKeywords body.uses := by
    rcases List.mem_append.mp hbody with hbody | hbody
    · exact procedures.freeOfKeywords hunreserved hprocedures hbody
    · obtain ⟨-, rfl⟩ : _ ∧ body = last := by simpa using hbody
      refine freeOfKeywords_of_allowed (List.forall_mem_nil _) ?_ huses
      exact List.forall_mem_append.mpr ⟨hunreserved, procedures.unreserved hprocedures⟩
  exact fun o ho => hfree o (body.uses_of_mem_parts ht ho)

/-- The code of a statement of a program stands in the code of the program. -/
theorem Program.standsIn (p : Program) {names : Names} {t : Statement}
    (h : (names, t) ∈ p.statements) : StandsIn p.fragments names t := by
  simp only [Program.statements, List.mem_flatMap, List.mem_map, Prod.mk.injEq] at h
  obtain ⟨⟨names, body⟩, hbody, t, ht, rfl, rfl⟩ := h
  obtain ⟨before, f, after, hfragments, hf⟩ :=
    p.block.standsIn_of_mem_bodies .program 0 .initial hbody
  rw [Program.fragments, hfragments]
  exact (body.standsIn_of_mem_parts names ht hf after).behind before

/-! ### Controlled statements -/

/-- The code of a controlled statement, in front of something that begins with a semicolon. -/
theorem tokens_controlled {e e' : Ending} {head : Fragment} {c : Condition} {body : List Fragment}
    {f : Fragment} {after : List Fragment} (hf : IsClosing f)
    (h : Joined e (head :: (c.fragments ++ .conditionEnd :: (body ++ f :: after))) e') :
    C.tokens (codeOf c.fragments) = cTokens c.fragments ∧
      C.tokens (codeOf body ++ ";") = cTokens body ++ [.mark ";"] := by
  obtain ⟨⟩ | ⟨-, -, hrest⟩ := h
  obtain ⟨e₁, hc, hrest⟩ := hrest.of_append
  obtain ⟨⟩ | ⟨-, -, hrest⟩ := hrest
  obtain ⟨e₂, hbody, hrest⟩ := hrest.of_append
  obtain ⟨⟩ | ⟨hfits, hwellFormed, -⟩ := hrest
  refine ⟨hc.tokens_codeOf, ?_⟩
  have hbreaks : C.Breaks (codeOf body) ";" := by
    intro d hd
    obtain rfl : ';' = d := by simpa using hd
    exact hbody.admits .other ';' (hf.1 ▸ hfits) (by simp [Beginning.Admits])
  rw [C.tokens_append hbreaks, hbody.tokens_codeOf]
  rfl

end Tree

/-- **What an `if` or a `while` controls.** In the output for an accepted text, the code of a
controlled statement and the semicolon behind it stand behind the `if` or the `while` with its
condition, which is an expression of C. They are a single statement of C, followed at most by empty
ones, just if the statement is not scattered. -/
theorem controlled_statement (source : Source)
    (h : ((compile source).deliver .unlimited).failure? = none) :
    ∀ p : Tree.Program, source.Reads p.tokens → ∀ names t k c body, (names, t) ∈ p.statements →
      Tree.Statement.Controls t k c body →
        C.Expression 15 (C.tokens (codeOf c.fragments)) ∧
        (∃ before after, C.tokens (compile source).text =
          before ++ .word k :: .mark "(" :: (C.tokens (codeOf c.fragments) ++ .mark ")" ::
            (C.tokens (codeOf (body.fragments names) ++ ";") ++ after))) ∧
        (C.IsSingle (C.tokens (codeOf (body.fragments names) ++ ";")) ↔ ¬ body.Scattered) := by
  intro p hp names t k c body ht hcontrols
  have hfree := p.freeOfKeywords (hp.finished h).1 ht
  rw [hcontrols.uses] at hfree
  have hbodyFree : Tree.FreeOfKeywords body.uses := fun o ho => hfree o (by simp [ho])
  have hconditionFree : Tree.FreeOfKeywords c.uses := fun o ho => hfree o (by simp [ho])
  obtain ⟨front, f, rest, hfragments, hf⟩ := p.standsIn ht
  obtain ⟨head, hhead, hcode⟩ := hcontrols.fragments names
  have hsplit : Fragment.preamble :: (p.fragments ++ [.trailer]) = (.preamble :: front) ++
      (head :: (c.fragments ++ .conditionEnd :: (body.fragments names ++ f ::
        (rest ++ [.trailer])))) := by
    simp [hfragments, hcode]
  have hjoined := hp.joined
  have houtput := hp.tokens_compile h
  rw [hsplit] at hjoined houtput
  obtain ⟨e, -, hjoined⟩ := hjoined.of_append
  obtain ⟨hc, hbody⟩ := Tree.tokens_controlled hf hjoined
  obtain ⟨-, ts, hts⟩ := hf
  rw [hc, hbody]
  refine ⟨c.isExpression hconditionFree, ⟨cTokens (.preamble :: front),
    ts ++ cTokens (rest ++ [.trailer]), ?_⟩, body.isSingle_iff names hbodyFree⟩
  have hend : Fragment.conditionEnd.tokens = [.mark ")"] := rfl
  rw [houtput]
  simp [hhead, hts, hend]

/-- A program in which a number is read whether or not the condition holds. -/
theorem not_isSingle_readInt :
    let source : Source := ⟨"read.pl0", "var x; begin if 1 = 2 then readInt x end."⟩
    let read : Tree.Statement := .read .decimal false "x"
    ((compile source).deliver .unlimited).failure? = none ∧
      ∃ p : Tree.Program, source.Reads p.tokens ∧
        ∃ names c, (names, .ifThen c read) ∈ p.statements ∧
          ¬ C.IsSingle (C.tokens (codeOf (read.fragments names) ++ ";")) := by
  let source : Source := ⟨"read.pl0", "var x; begin if 1 = 2 then readInt x end."⟩
  let read : Tree.Statement := .read .decimal false "x"
  let number (n : Int) (digits : String) : Tree.Expression :=
    .mk none (.mk (.number ⟨n, digits⟩) .done) .done
  let c : Tree.Condition := .compare (number 1 "1") .equal (number 2 "2")
  let p : Tree.Program := ⟨.mk [] [⟨"x", none⟩] .done (.compound (.ifThen c read) .done)⟩
  have haccepted : ((compile source).deliver .unlimited).failure? = none := by decide +kernel
  have hp : source.Reads p.tokens := Source.reads_iff.mpr (by decide +kernel)
  refine ⟨haccepted, p, hp, _, c, List.mem_cons_of_mem _ (List.mem_cons_self ..), ?_⟩
  have hcontrolled := controlled_statement source haccepted p hp _ _ "if" c read
    (List.mem_cons_of_mem _ (List.mem_cons_self ..)) (.ifThen c read)
  exact fun hsingle => hcontrolled.2.2.mp hsingle trivial

end PlZero
