import PlZero.Proofs.C.Fragments
import PlZero.Proofs.Translation

/-!
# The tokens of the code of a tree

The fragments of a tree are joined as soon as the tokens of the tree are those of a text: a name
that the code repeats is a word, and a number has no sign. So the tokens of the code are those of
its fragments, one behind the other (`Source.Reads.tokens_compile`).

An expression fits behind whatever is settled or opens something, and ends in an operand. A
statement follows what is settled, and what it ends in is followed by a semicolon
(`Statement.joined`).
-/

namespace PlZero.Tree

/-- Behind this, an expression can begin. -/
def Awaits (e : Ending) : Prop := e = .settled ∨ e = .operator

/-- Behind this, a semicolon can stand. -/
def Ends (e : Ending) : Prop := e = .settled ∨ e = .operand

/-! ### Expressions -/

theorem Awaits.fits {e : Ending} (h : Awaits e) {b : Beginning} (hb : b ≠ .other) : e.Fits b := by
  rcases h with rfl | rfl
  · trivial
  · exact hb

/-- A sign or a first term begins behind what awaits an expression, and an operand follows. -/
theorem joined_sign {e : Ending} (h : Awaits e) (sign : Option Sign) :
    ∃ e', Joined e (signFragments sign) e' ∧ (e' = .sign ∨ Awaits e') := by
  cases sign with
  | none => exact ⟨e, .nil e, .inr h⟩
  | some s => cases s <;> exact ⟨.sign, .single (h.fits (by decide)) (by decide), .inl rfl⟩

/-- Behind a sign, and behind what awaits an expression, words and parentheses fit. -/
theorem fits_of_sign_or_awaits {e : Ending} (h : e = .sign ∨ Awaits e) {b : Beginning}
    (hb : b = .word ∨ b = .paren) : e.Fits b := by
  rcases h with rfl | h
  · exact hb
  · exact h.fits (by rintro rfl; simp at hb)

/-- An index stands behind a name. -/
theorem joined_index {index : List Fragment} (h : Joined .operator index .operand) :
    Joined .operand (.mark .leftBracket :: (index ++ [.mark .rightBracket])) .operand :=
  .cons (by decide) (by decide) (h.append (.single (by decide) (by decide)))

mutual

theorem Expression.joined (t : Expression) {e : Ending} (h : ∀ u ∈ t.tokens, u.WellFormed)
    (he : Awaits e) : Joined e t.fragments .operand := by
  match t with
  | .mk sign first more =>
    obtain ⟨e', hsign, he'⟩ := joined_sign he sign
    have hfirst := first.joined (fun u hu => h u (by simp [Expression.tokens, hu])) he'
    exact hsign.append (hfirst.append
      (more.joined fun u hu => h u (by simp [Expression.tokens, hu])))

theorem Terms.joined (t : Terms) (h : ∀ u ∈ t.tokens, u.WellFormed) :
    Joined .operand t.fragments .operand := by
  match t with
  | .done => exact .nil _
  | .next sign term more =>
    have hterm := term.joined (e := .sign) (fun u hu => h u (by simp [Terms.tokens, hu])) (.inl rfl)
    have hmore := more.joined fun u hu => h u (by simp [Terms.tokens, hu])
    cases sign with
    | plus => exact .cons (by decide) (by decide) (hterm.append hmore)
    | minus => exact .cons (by decide) (by decide) (hterm.append hmore)

theorem Term.joined (t : Term) {e : Ending} (h : ∀ u ∈ t.tokens, u.WellFormed)
    (he : e = .sign ∨ Awaits e) : Joined e t.fragments .operand := by
  match t with
  | .mk first more =>
    exact (first.joined (fun u hu => h u (by simp [Term.tokens, hu])) he).append
      (more.joined fun u hu => h u (by simp [Term.tokens, hu]))

theorem Factors.joined (t : Factors) (h : ∀ u ∈ t.tokens, u.WellFormed) :
    Joined .operand t.fragments .operand := by
  match t with
  | .done => exact .nil _
  | .next scaling factor more =>
    have hfactor := factor.joined (e := .operator)
      (fun u hu => h u (by simp [Factors.tokens, hu])) (.inr (.inr rfl))
    have hmore := more.joined fun u hu => h u (by simp [Factors.tokens, hu])
    cases scaling with
    | times => exact .cons (by decide) (by decide) (hfactor.append hmore)
    | dividedBy => exact .cons (by decide) (by decide) (hfactor.append hmore)

theorem Factor.joined (t : Factor) {e : Ending} (h : ∀ u ∈ t.tokens, u.WellFormed)
    (he : e = .sign ∨ Awaits e) : Joined e t.fragments .operand := by
  match t with
  | .name x =>
    have hx : (Token.name x).WellFormed := h _ (by simp [Factor.tokens])
    exact .single (fits_of_sign_or_awaits he (.inl rfl)) hx.1
  | .element x index =>
    have hx : (Token.name x).WellFormed := h _ (by simp [Factor.tokens])
    have hindex := index.joined (e := .operator)
      (fun u hu => h u (by simp [Factor.tokens, hu])) (.inr rfl)
    exact .cons (fits_of_sign_or_awaits he (.inl rfl)) hx.1 (joined_index hindex)
  | .number n =>
    have hn : n.token.WellFormed := h _ (by simp [Factor.tokens])
    exact .single (fits_of_sign_or_awaits he (.inl rfl)) hn.1
  | .group inner =>
    have hinner := inner.joined (e := .operator)
      (fun u hu => h u (by simp [Factor.tokens, hu])) (.inr rfl)
    exact .cons (fits_of_sign_or_awaits he (.inr rfl)) (by decide)
      (hinner.append (.single (by decide) (by decide)))

end

theorem Condition.joined (t : Condition) (h : ∀ u ∈ t.tokens, u.WellFormed) :
    Joined .operator t.fragments .operand := by
  cases t with
  | odd e =>
    have he := e.joined (e := .operator) (fun u hu => h u (by simp [Condition.tokens, hu]))
      (.inr rfl)
    exact .cons (by decide) trivial (he.append (.single (by decide) trivial))
  | compare left relation right =>
    have hleft := left.joined (e := .operator)
      (fun u hu => h u (by simp [Condition.tokens, hu])) (.inr rfl)
    have hright := right.joined (e := .operator)
      (fun u hu => h u (by simp [Condition.tokens, hu])) (.inr rfl)
    cases relation with
    | equal | unequal => exact hleft.append (.cons (by decide) trivial hright)
    | below | above =>
      exact hleft.append
        (.cons (by decide) (by simp [Relation.fragment, Fragment.WellFormed]) hright)

/-! ### Statements -/

/-- Behind a statement, a fragment fits that begins with a semicolon. -/
theorem Ends.fits {e : Ending} (h : Ends e) : e.Fits .other := by
  rcases h with rfl | rfl <;> decide

/-- A condition and what it controls. -/
theorem joined_controlled {c : Condition} {head : Fragment} {body : List Fragment} {e : Ending}
    (hhead : head.WellFormed) (hends : head.ending = .operator)
    (h : ∀ u ∈ c.tokens, u.WellFormed) (hbody : Joined .settled body e) :
    Joined .settled (head :: (c.fragments ++ .conditionEnd :: body)) e := by
  refine .cons trivial hhead ?_
  rw [hends]
  exact (c.joined h).append (.cons (by decide) trivial hbody)

mutual

theorem Statement.joined (names : Names) (t : Statement) (h : ∀ u ∈ t.tokens, u.WellFormed) :
    ∃ e, Joined .settled (t.fragments names) e ∧ Ends e := by
  match t with
  | .empty => exact ⟨.settled, .nil _, .inl rfl⟩
  | .assign x value =>
    have hx : (Token.name x).WellFormed := h _ (by simp [Statement.tokens])
    have hvalue := value.joined (e := .operator)
      (fun u hu => h u (by simp [Statement.tokens, hu])) (.inr rfl)
    exact ⟨_, .cons trivial hx.1 (.cons nofun trivial hvalue), .inr rfl⟩
  | .assignElement x index value =>
    have hx : (Token.name x).WellFormed := h _ (by simp [Statement.tokens])
    have hindex := index.joined (e := .operator)
      (fun u hu => h u (by simp [Statement.tokens, hu])) (.inr rfl)
    have hvalue := value.joined (e := .operator)
      (fun u hu => h u (by simp [Statement.tokens, hu])) (.inr rfl)
    have hassign : Joined .operand (.assign :: value.fragments) .operand :=
      .cons (by decide) trivial hvalue
    have hall : Joined .operand (.mark .leftBracket ::
        (index.fragments ++ .mark .rightBracket :: .assign :: value.fragments)) .operand := by
      simpa using (joined_index hindex).append hassign
    exact ⟨_, .cons trivial hx.1 hall, .inr rfl⟩
  | .call p =>
    have hp : (Token.name p).WellFormed := h _ (by simp [Statement.tokens])
    exact ⟨_, .single trivial hp.1, .inl rfl⟩
  | .compound first more =>
    obtain ⟨e, hfirst, he⟩ := first.joined names fun u hu => h u (by simp [Statement.tokens, hu])
    have hmore := more.joined names (fun u hu => h u (by simp [Statement.tokens, hu])) he
    exact ⟨_, .cons trivial trivial (hfirst.append hmore), .inl rfl⟩
  | .ifThen c body | .whileDo c body =>
    obtain ⟨e, hbody, he⟩ := body.joined names fun u hu => h u (by simp [Statement.tokens, hu])
    have hc : ∀ u ∈ c.tokens, u.WellFormed := fun u hu => h u (by simp [Statement.tokens, hu])
    exact ⟨e, joined_controlled trivial rfl hc hbody, he⟩
  | .printName form x =>
    have hx : (Token.name x).WellFormed := h _ (by simp [Statement.tokens])
    exact ⟨_, .single trivial hx.1, .inl rfl⟩
  | .printNumber form n =>
    have hn : n.token.WellFormed := h _ (by simp [Statement.tokens])
    exact ⟨_, .single trivial hn.1, .inl rfl⟩
  | .read form hasInto x =>
    have hx : (Token.name x).WellFormed := h _ (by simp [Statement.tokens])
    exact ⟨_, .single trivial hx.1, .inl rfl⟩
  | .printArray x =>
    have hx : (Token.name x).WellFormed := h _ (by simp [Statement.tokens])
    exact ⟨_, .single trivial hx.1, .inl rfl⟩
  | .printText content => exact ⟨_, .single trivial trivial, .inl rfl⟩

theorem Statements.joined (names : Names) (t : Statements) {e : Ending}
    (h : ∀ u ∈ t.tokens, u.WellFormed) (he : Ends e) :
    Joined e (t.fragments names) .settled := by
  match t with
  | .done => exact .single he.fits trivial
  | .next s more =>
    obtain ⟨e', hs, he'⟩ := s.joined names fun u hu => h u (by simp [Statements.tokens, hu])
    have hmore := more.joined names (fun u hu => h u (by simp [Statements.tokens, hu])) he'
    exact .cons he.fits trivial (hs.append hmore)

end

/-! ### Programs -/

theorem Constant.joined (t : Constant) (h : ∀ u ∈ t.tokens, u.WellFormed) :
    Joined .settled t.fragments .settled := by
  have hx : (Token.name t.name).WellFormed := h _ (by simp [Constant.tokens])
  have hn : t.value.token.WellFormed := h _ (by simp [Constant.tokens])
  exact .cons trivial hx.1
    (.single (by simp [Fragment.ending, Fragment.beginning, Ending.Fits]) hn.1)

theorem Variable.joined (t : Variable) (h : ∀ u ∈ t.tokens, u.WellFormed) :
    Joined .settled t.fragments .settled := by
  obtain ⟨x, size⟩ := t
  have hx : (Token.name x).WellFormed := h _ (by simp [Variable.tokens])
  have hend : (Fragment.variableHead x).ending.Fits Fragment.variableEnd.beginning := by
    simp [Fragment.ending, Fragment.beginning, Ending.Fits]
  cases size with
  | none => exact .cons trivial hx.1 (.single hend trivial)
  | some n =>
    have hbound : (Fragment.variableHead x).ending.Fits
        (Fragment.arrayBound n.value.toNat).beginning := by
      simp [Fragment.ending, Fragment.beginning, Ending.Fits]
    exact .cons trivial hx.1 (.cons hbound trivial (.single hend trivial))

/-- Joined parts that begin and end settled are joined one behind the other. -/
theorem joined_flatMap {α : Type} (fragments : α → List Fragment) {as : List α}
    (h : ∀ a ∈ as, Joined .settled (fragments a) .settled) :
    Joined .settled (as.flatMap fragments) .settled := by
  induction as with
  | nil => exact .nil _
  | cons a as ih =>
    obtain ⟨ha, has⟩ := List.forall_mem_cons.mp h
    rw [List.flatMap_cons]
    exact ha.append (ih has)

theorem joined_variables (vars : List Variable)
    (h : ∀ v ∈ vars, Joined .settled v.fragments .settled) :
    Joined .settled (variablesFragments vars) .settled := by
  cases vars with
  | nil => exact .nil _
  | cons first more =>
    obtain ⟨hfirst, hmore⟩ := List.forall_mem_cons.mp h
    exact hfirst.append ((joined_flatMap _ hmore).append (.single trivial trivial))

mutual

theorem Block.joined (kind : PlZero.Block) (level : Nat) (scope : Scope) (t : Block)
    (h : ∀ u ∈ t.tokens, u.WellFormed) :
    Joined .settled (t.fragments kind level scope) .settled := by
  match t with
  | .mk constants vars procedures body =>
    have hconstants : ∀ c ∈ constants, Joined .settled c.fragments .settled := fun c hc =>
      c.joined fun u hu => h u (by simp [Block.tokens, mem_listTokens hc hu])
    have hvariables : ∀ v ∈ vars, Joined .settled v.fragments .settled := fun v hv =>
      v.joined fun u hu => h u (by simp [Block.tokens, mem_listTokens hv hu])
    have hprocedures := fun scope =>
      procedures.joined level scope fun u hu => h u (by simp [Block.tokens, hu])
    have hhead : Joined .settled (bodyHead kind) .settled := by
      cases kind with
      | program => exact .single trivial trivial
      | procedure => exact .nil _
    let own := extend scope (ownDeclarations level constants vars)
    obtain ⟨e, hbody, he⟩ := body.joined (extend own (procedures.declarations level)).lookup
      fun u hu => h u (by simp [Block.tokens, hu])
    have hend : Joined e [.bodyEnd kind] .settled :=
      .single (by cases kind <;> exact he.fits) trivial
    exact (joined_flatMap _ hconstants).append ((joined_variables _ hvariables).append
      ((hprocedures _).append (hhead.append (hbody.append hend))))

theorem Procedures.joined (level : Nat) (scope : Scope) (t : Procedures)
    (h : ∀ u ∈ t.tokens, u.WellFormed) :
    Joined .settled (t.fragments level scope) .settled := by
  match t with
  | .done => exact .nil _
  | .next name block more =>
    have hname : (Token.name name).WellFormed := h _ (by simp [Procedures.tokens])
    have hblock := block.joined .procedure (level + 1)
      (extend scope [procedureDeclaration level name])
      fun u hu => h u (by simp [Procedures.tokens, hu])
    have hmore := more.joined level (extend scope [procedureDeclaration level name])
      fun u hu => h u (by simp [Procedures.tokens, hu])
    exact .cons trivial hname.1 (hblock.append hmore)

end

/-- The whole output of a program is joined. -/
theorem Program.joined (t : Program) (h : ∀ u ∈ t.tokens, u.WellFormed) :
    Joined .settled (.preamble :: (t.fragments ++ [.trailer])) .settled := by
  have hblock := t.block.joined .program 0 .initial fun u hu => h u (by simp [Program.tokens, hu])
  exact .cons trivial trivial (hblock.append (.single trivial trivial))

end PlZero.Tree

namespace PlZero

/-- The output of a text is joined. -/
theorem Source.Reads.joined {source : Source} {p : Tree.Program} (h : source.Reads p.tokens) :
    Joined .settled (.preamble :: (p.fragments ++ [.trailer])) .settled :=
  p.joined fun u hu => (h.wellFormed u hu).1

/-- The output is the code of its fragments. -/
theorem Source.Reads.text_eq_codeOf {source : Source} {p : Tree.Program}
    (h : source.Reads p.tokens) (haccepted : source.Accepted) :
    (compile source).text = codeOf (.preamble :: (p.fragments ++ [.trailer])) := by
  simp [h.text_compile haccepted, ← p.codeOf_fragments, String.append_assoc]

/-- **The output has the tokens of its fragments**, those of the frame and of the tree. -/
theorem Source.Reads.tokens_compile {source : Source} {p : Tree.Program}
    (h : source.Reads p.tokens) (haccepted : source.Accepted) :
    C.tokens (compile source).text = cTokens (.preamble :: (p.fragments ++ [.trailer])) := by
  rw [h.text_eq_codeOf haccepted, h.joined.tokens_codeOf]

end PlZero
