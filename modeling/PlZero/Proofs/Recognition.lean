import PlZero.Proofs.BlockRun
import PlZero.Proofs.Slots

/-!
# What is accepted is a sentence

Read as rules of a grammar, the goals say which tokens they stand for (`Derives`): a slot for a
token that it admits (`Slot.Admits`), a nonterminal for those of the trees of its kind
(`Nonterminal.Yields`), and an action for none. What a nonterminal is replaced by stands for
nothing else than it does itself (`Nonterminal.yields_of_expansion`), so a run that works off goals
takes tokens that the goals stand for (`derives_of_run`), and a finished run of the compiler has
read the tokens of a tree (`sentence_of_finished`).
-/

namespace PlZero

open Goal

/-! ### The tokens that goals stand for -/

/-- A slot admits a token. -/
def Slot.Admits : Slot → Token → Prop
  | .skipped expected, t | .written expected _, t => t = expected.token
  | .declared _, t | .target, t | .callee, t | .stored _, t => ∃ x, t = .name x
  | .constantValue, t | .arrayBound, t => ∃ n : Tree.Numeral, t = n.token
  | .operand, t | .printed _, t => (∃ x, t = .name x) ∨ ∃ n : Tree.Numeral, t = n.token
  | .relation, t => ∃ relation : Tree.Relation, t = .mark relation.mark
  | .printedText, t => (∃ x, t = .name x) ∨ ∃ content, t = .text content

/-- A nonterminal stands for the tokens of any tree of its kind. -/
def Nonterminal.Yields : Nonterminal → List Token → Prop
  | .block _, ts => ∃ b : Tree.Block, ts = b.tokens
  | .constantList, ts => ∃ cs, ts = Tree.listTokens .const Tree.Constant.tokens cs
  | .moreConstants, ts => ∃ cs, ts = Tree.listTail Tree.Constant.tokens cs
  | .variableList, ts => ∃ vs, ts = Tree.listTokens .var Tree.Variable.tokens vs
  | .variableSize, ts => ∃ size, ts = Tree.sizeTokens size
  | .moreVariables, ts => ∃ vs, ts = Tree.listTail Tree.Variable.tokens vs
  | .procedureList, ts => ∃ procedures : Tree.Procedures, ts = procedures.tokens
  | .statement, ts => ∃ s : Tree.Statement, ts = s.tokens
  | .moreStatements, ts => ∃ more : Tree.Statements, ts = more.tokens
  | .optionalInto, ts => ∃ hasInto, ts = Tree.intoTokens hasInto
  | .condition, ts => ∃ c : Tree.Condition, ts = c.tokens
  | .expression, ts => ∃ e : Tree.Expression, ts = e.tokens
  | .moreTerms, ts => ∃ more : Tree.Terms, ts = more.tokens
  | .term, ts => ∃ t : Tree.Term, ts = t.tokens
  | .moreFactors, ts => ∃ more : Tree.Factors, ts = more.tokens
  | .factor, ts => ∃ f : Tree.Factor, ts = f.tokens
  | .index _, ts => ts = [] ∨
      ∃ e : Tree.Expression, ts = .mark .leftBracket :: (e.tokens ++ [.mark .rightBracket])

/-- A goal stands for tokens. -/
def Goal.Yields : Goal → List Token → Prop
  | .expand n, ts => n.Yields ts
  | .fill slot, ts => ∃ t, slot.Admits t ∧ ts = [t]
  | .perform _, ts => ts = []

/-- The tokens fall into parts that the goals stand for one by one. -/
def Derives : List Goal → List Token → Prop
  | [], ts => ts = []
  | g :: gs, ts => ∃ us vs, g.Yields us ∧ Derives gs vs ∧ ts = us ++ vs

section Derives

variable {gs hs : List Goal} {ts : List Token}

@[simp]
theorem derives_nil : Derives [] ts ↔ ts = [] := Iff.rfl

@[simp]
theorem derives_perform {a : Action} : Derives (perform a :: gs) ts ↔ Derives gs ts := by
  constructor
  · rintro ⟨us, vs, rfl, h, rfl⟩
    exact h
  · exact fun h => ⟨[], ts, rfl, h, rfl⟩

@[simp]
theorem derives_fill {slot : Slot} :
    Derives (fill slot :: gs) ts ↔ ∃ t us, slot.Admits t ∧ Derives gs us ∧ ts = t :: us := by
  constructor
  · rintro ⟨us, vs, ⟨t, ht, rfl⟩, h, rfl⟩
    exact ⟨t, vs, ht, h, rfl⟩
  · rintro ⟨t, us, ht, h, rfl⟩
    exact ⟨[t], us, ⟨t, ht, rfl⟩, h, rfl⟩

@[simp]
theorem derives_expand {n : Nonterminal} :
    Derives (expand n :: gs) ts ↔ ∃ us vs, n.Yields us ∧ Derives gs vs ∧ ts = us ++ vs := Iff.rfl

theorem derives_append :
    Derives (gs ++ hs) ts ↔ ∃ us vs, Derives gs us ∧ Derives hs vs ∧ ts = us ++ vs := by
  induction gs generalizing ts with
  | nil => simp
  | cons g gs ih =>
    constructor
    · rintro ⟨us, vs, hg, hrest, rfl⟩
      obtain ⟨us', vs', hgs, hhs, rfl⟩ := ih.mp hrest
      exact ⟨us ++ us', vs', ⟨us, us', hg, hgs, rfl⟩, hhs, (List.append_assoc ..).symm⟩
    · rintro ⟨us, vs, ⟨us', us'', hg, hgs, rfl⟩, hhs, rfl⟩
      exact ⟨us', us'' ++ vs, hg, ih.mpr ⟨us'', vs, hgs, hhs, rfl⟩, List.append_assoc ..⟩

end Derives

/-- A token that fills a slot is admitted by it. -/
theorem Slot.admits_of_fill {slot : Slot} {depth : Nat} {scope : Scope} {t : Token}
    {r : Scope × Option Fragment} (h : slot.fill depth scope t = .ok r) : slot.Admits t := by
  obtain ⟨scope', f⟩ := r
  cases Slot.fills_of_fill h with
  | skipped | written => rfl
  | declared => exact ⟨_, rfl⟩
  | constantValue value digits => exact ⟨⟨value, digits⟩, rfl⟩
  | arrayBound digits => exact ⟨⟨_, digits⟩, rfl⟩
  | relation r => exact ⟨r, rfl⟩
  | @used slot _ _ huse =>
    cases slot with
    | target | callee | stored => exact ⟨_, rfl⟩
    | operand | printed | printedText => exact .inl ⟨_, rfl⟩
    | _ => cases huse
  | operand value digits | printed form value digits => exact .inr ⟨⟨value, digits⟩, rfl⟩
  | printedText content => exact .inr ⟨content, rfl⟩

/-! ### Nonterminals -/

section Expansion

variable {ts : List Token} {t : Token} {goals : List Goal}

theorem derives_constantGoals (h : Derives Nonterminal.constantGoals ts) :
    ∃ (c : Tree.Constant) (more : List Tree.Constant),
      ts = c.tokens ++ Tree.listTail Tree.Constant.tokens more := by
  simp only [Nonterminal.constantGoals, derives_fill, derives_expand, derives_nil, Slot.Admits] at h
  obtain ⟨-, -, ⟨x, rfl⟩, ⟨-, -, rfl, ⟨-, -, ⟨n, rfl⟩, ⟨-, -, ⟨more, rfl⟩, rfl, rfl⟩, rfl⟩, rfl⟩,
    rfl⟩ := h
  exact ⟨⟨x, n⟩, more, by simp [Tree.Constant.tokens, Fixed.token]⟩

theorem derives_variableGoals (h : Derives Nonterminal.variableGoals ts) :
    ∃ (v : Tree.Variable) (more : List Tree.Variable),
      ts = v.tokens ++ Tree.listTail Tree.Variable.tokens more := by
  simp only [Nonterminal.variableGoals, derives_fill, derives_expand, derives_perform, derives_nil,
    Slot.Admits] at h
  obtain ⟨-, -, ⟨x, rfl⟩, ⟨-, -, ⟨size, rfl⟩, ⟨-, -, ⟨more, rfl⟩, rfl, rfl⟩, rfl⟩, rfl⟩ := h
  exact ⟨⟨x, size⟩, more, by simp [Tree.Variable.tokens]⟩

theorem derives_procedureGoals
    (h : Derives (Nonterminal.procedureGoals ++ [expand .procedureList]) ts) :
    ∃ procedures : Tree.Procedures, ts = procedures.tokens := by
  simp only [Nonterminal.procedureGoals, List.cons_append, List.nil_append, derives_fill,
    derives_expand, derives_perform, derives_nil, Slot.Admits] at h
  obtain ⟨-, -, rfl, ⟨-, -, ⟨x, rfl⟩, ⟨-, -, rfl, ⟨-, -, ⟨b, rfl⟩, ⟨-, -, rfl, ⟨-, -, ⟨more, rfl⟩,
    rfl, rfl⟩, rfl⟩, rfl⟩, rfl⟩, rfl⟩, rfl⟩ := h
  exact ⟨.next x b more, by simp [Tree.Procedures.tokens, Fixed.token]⟩

theorem derives_blockGoals {b : Block} (h : Derives (Nonterminal.blockGoals b) ts) :
    ∃ b : Tree.Block, ts = b.tokens := by
  have hparts : Derives [expand .constantList, expand .variableList, expand .procedureList,
      expand .statement] ts := by
    cases b <;> simpa [Nonterminal.blockGoals] using h
  simp only [derives_expand, derives_nil] at hparts
  obtain ⟨-, -, ⟨cs, rfl⟩, ⟨-, -, ⟨vs, rfl⟩, ⟨-, -, ⟨ps, rfl⟩, ⟨-, -, ⟨s, rfl⟩, rfl, rfl⟩, rfl⟩,
    rfl⟩, rfl⟩ := hparts
  exact ⟨.mk cs vs ps s, by simp [Tree.Block.tokens]⟩

theorem derives_indexed {x : String} (h : Derives [expand (.index x)] ts) :
    ts = [] ∨ ∃ e : Tree.Expression,
      ts = .mark .leftBracket :: (e.tokens ++ [.mark .rightBracket]) := by
  obtain ⟨us, vs, hus, rfl, rfl⟩ := h
  rw [List.append_nil]
  exact hus

theorem derives_statementGoals (h : Derives (Nonterminal.statementGoals t) ts) :
    ∃ s : Tree.Statement, ts = s.tokens := by
  unfold Nonterminal.statementGoals at h
  split at h <;> simp only [derives_fill, derives_expand, derives_nil, Slot.Admits] at h
  · obtain ⟨-, -, ⟨x, rfl⟩, ⟨us, vs, hindex, ⟨-, -, rfl, ⟨-, -, ⟨value, rfl⟩, rfl, rfl⟩, rfl⟩, rfl⟩,
      rfl⟩ := h
    rcases hindex with rfl | ⟨index, rfl⟩
    · exact ⟨.assign x value, by simp [Tree.Statement.tokens, Fixed.token]⟩
    · exact ⟨.assignElement x index value, by simp [Tree.Statement.tokens, Fixed.token]⟩
  · obtain ⟨-, -, rfl, ⟨-, -, ⟨p, rfl⟩, rfl, rfl⟩, rfl⟩ := h
    exact ⟨.call p, rfl⟩
  · obtain ⟨-, -, rfl, ⟨-, -, ⟨first, rfl⟩, ⟨-, -, ⟨more, rfl⟩, rfl, rfl⟩, rfl⟩, rfl⟩ := h
    exact ⟨.compound first more, by simp [Tree.Statement.tokens, Fixed.token]⟩
  · obtain ⟨-, -, rfl, ⟨-, -, ⟨c, rfl⟩, ⟨-, -, rfl, ⟨-, -, ⟨body, rfl⟩, rfl, rfl⟩, rfl⟩, rfl⟩,
      rfl⟩ := h
    exact ⟨.ifThen c body, by simp [Tree.Statement.tokens, Fixed.token]⟩
  · obtain ⟨-, -, rfl, ⟨-, -, ⟨c, rfl⟩, ⟨-, -, rfl, ⟨-, -, ⟨body, rfl⟩, rfl, rfl⟩, rfl⟩, rfl⟩,
      rfl⟩ := h
    exact ⟨.whileDo c body, by simp [Tree.Statement.tokens, Fixed.token]⟩
  · obtain ⟨-, -, rfl, ⟨-, -, ⟨x, rfl⟩ | ⟨n, rfl⟩, rfl, rfl⟩, rfl⟩ := h
    · exact ⟨.printName .decimal x, rfl⟩
    · exact ⟨.printNumber .decimal n, rfl⟩
  · obtain ⟨-, -, rfl, ⟨-, -, ⟨x, rfl⟩ | ⟨n, rfl⟩, rfl, rfl⟩, rfl⟩ := h
    · exact ⟨.printName .character x, rfl⟩
    · exact ⟨.printNumber .character n, rfl⟩
  · obtain ⟨-, -, rfl, ⟨-, -, ⟨hasInto, rfl⟩, ⟨-, -, ⟨x, rfl⟩, rfl, rfl⟩, rfl⟩, rfl⟩ := h
    exact ⟨.read .decimal hasInto x, rfl⟩
  · obtain ⟨-, -, rfl, ⟨-, -, ⟨hasInto, rfl⟩, ⟨-, -, ⟨x, rfl⟩, rfl, rfl⟩, rfl⟩, rfl⟩ := h
    exact ⟨.read .character hasInto x, rfl⟩
  · obtain ⟨-, -, rfl, ⟨-, -, ⟨x, rfl⟩ | ⟨content, rfl⟩, rfl, rfl⟩, rfl⟩ := h
    · exact ⟨.printArray x, rfl⟩
    · exact ⟨.printText content, rfl⟩
  · exact ⟨.empty, h⟩

theorem yields_constantList (hn : Nonterminal.constantList.expansion t = .ok goals)
    (h : Derives goals ts) : Nonterminal.constantList.Yields ts := by
  simp only [Nonterminal.expansion] at hn
  split at hn <;> cases hn
  · simp only [derives_fill, Slot.Admits] at h
    obtain ⟨-, us, rfl, hus, rfl⟩ := h
    obtain ⟨c, more, rfl⟩ := derives_constantGoals hus
    exact ⟨c :: more, rfl⟩
  · exact ⟨[], h⟩

theorem yields_moreConstants (hn : Nonterminal.moreConstants.expansion t = .ok goals)
    (h : Derives goals ts) : Nonterminal.moreConstants.Yields ts := by
  simp only [Nonterminal.expansion] at hn
  split at hn <;> cases hn
  · simp only [derives_fill, Slot.Admits] at h
    obtain ⟨-, us, rfl, hus, rfl⟩ := h
    obtain ⟨c, more, rfl⟩ := derives_constantGoals hus
    exact ⟨c :: more, by simp [Tree.listTail, Fixed.token]⟩
  · simp only [derives_fill, derives_nil, Slot.Admits] at h
    obtain ⟨-, -, rfl, rfl, rfl⟩ := h
    exact ⟨[], rfl⟩

theorem yields_variableList (hn : Nonterminal.variableList.expansion t = .ok goals)
    (h : Derives goals ts) : Nonterminal.variableList.Yields ts := by
  simp only [Nonterminal.expansion] at hn
  split at hn <;> cases hn
  · simp only [derives_fill, Slot.Admits] at h
    obtain ⟨-, us, rfl, hus, rfl⟩ := h
    obtain ⟨v, more, rfl⟩ := derives_variableGoals hus
    exact ⟨v :: more, rfl⟩
  · exact ⟨[], h⟩

theorem yields_variableSize (hn : Nonterminal.variableSize.expansion t = .ok goals)
    (h : Derives goals ts) : Nonterminal.variableSize.Yields ts := by
  simp only [Nonterminal.expansion] at hn
  split at hn <;> cases hn
  · simp only [derives_fill, derives_nil, Slot.Admits] at h
    obtain ⟨-, -, rfl, ⟨-, -, ⟨n, rfl⟩, rfl, rfl⟩, rfl⟩ := h
    exact ⟨some n, rfl⟩
  · exact ⟨none, h⟩

theorem yields_moreVariables (hn : Nonterminal.moreVariables.expansion t = .ok goals)
    (h : Derives goals ts) : Nonterminal.moreVariables.Yields ts := by
  simp only [Nonterminal.expansion] at hn
  split at hn <;> cases hn
  · simp only [derives_fill, Slot.Admits] at h
    obtain ⟨-, us, rfl, hus, rfl⟩ := h
    obtain ⟨v, more, rfl⟩ := derives_variableGoals hus
    exact ⟨v :: more, by simp [Tree.listTail, Fixed.token]⟩
  · simp only [derives_fill, derives_perform, derives_nil, Slot.Admits] at h
    obtain ⟨-, -, rfl, rfl, rfl⟩ := h
    exact ⟨[], rfl⟩

theorem yields_procedureList (hn : Nonterminal.procedureList.expansion t = .ok goals)
    (h : Derives goals ts) : Nonterminal.procedureList.Yields ts := by
  simp only [Nonterminal.expansion] at hn
  split at hn <;> cases hn
  · exact derives_procedureGoals h
  · exact ⟨.done, h⟩

theorem yields_moreStatements (hn : Nonterminal.moreStatements.expansion t = .ok goals)
    (h : Derives goals ts) : Nonterminal.moreStatements.Yields ts := by
  simp only [Nonterminal.expansion] at hn
  split at hn <;> cases hn <;>
    simp only [derives_fill, derives_expand, derives_nil, Slot.Admits] at h
  · obtain ⟨-, -, rfl, ⟨-, -, ⟨s, rfl⟩, ⟨-, -, ⟨more, rfl⟩, rfl, rfl⟩, rfl⟩, rfl⟩ := h
    exact ⟨.next s more, by simp [Tree.Statements.tokens, Fixed.token]⟩
  · obtain ⟨-, -, rfl, rfl, rfl⟩ := h
    exact ⟨.done, rfl⟩

theorem yields_optionalInto (hn : Nonterminal.optionalInto.expansion t = .ok goals)
    (h : Derives goals ts) : Nonterminal.optionalInto.Yields ts := by
  simp only [Nonterminal.expansion] at hn
  split at hn <;> cases hn
  · simp only [derives_fill, derives_nil, Slot.Admits] at h
    obtain ⟨-, -, rfl, rfl, rfl⟩ := h
    exact ⟨true, rfl⟩
  · exact ⟨false, h⟩

theorem yields_condition (hn : Nonterminal.condition.expansion t = .ok goals)
    (h : Derives goals ts) : Nonterminal.condition.Yields ts := by
  simp only [Nonterminal.expansion] at hn
  split at hn <;> cases hn <;>
    simp only [derives_fill, derives_expand, derives_perform, derives_nil, Slot.Admits] at h
  · obtain ⟨-, -, rfl, ⟨-, -, ⟨e, rfl⟩, rfl, rfl⟩, rfl⟩ := h
    exact ⟨.odd e, by simp [Tree.Condition.tokens, Fixed.token]⟩
  · obtain ⟨-, -, ⟨left, rfl⟩,
      ⟨-, -, ⟨relation, rfl⟩, ⟨-, -, ⟨right, rfl⟩, rfl, rfl⟩, rfl⟩, rfl⟩ := h
    exact ⟨.compare left relation right, by simp [Tree.Condition.tokens]⟩

theorem yields_expression (hn : Nonterminal.expression.expansion t = .ok goals)
    (h : Derives goals ts) : Nonterminal.expression.Yields ts := by
  simp only [Nonterminal.expansion] at hn
  split at hn <;> cases hn <;>
    simp only [derives_fill, derives_expand, derives_nil, Slot.Admits] at h
  · obtain ⟨-, -, rfl, ⟨-, -, ⟨first, rfl⟩, ⟨-, -, ⟨more, rfl⟩, rfl, rfl⟩, rfl⟩, rfl⟩ := h
    exact ⟨.mk (some .plus) first more, by simp [Tree.Expression.tokens, Tree.signTokens,
      Tree.Sign.mark, Fixed.token]⟩
  · obtain ⟨-, -, rfl, ⟨-, -, ⟨first, rfl⟩, ⟨-, -, ⟨more, rfl⟩, rfl, rfl⟩, rfl⟩, rfl⟩ := h
    exact ⟨.mk (some .minus) first more, by simp [Tree.Expression.tokens, Tree.signTokens,
      Tree.Sign.mark, Fixed.token]⟩
  · obtain ⟨-, -, ⟨first, rfl⟩, ⟨-, -, ⟨more, rfl⟩, rfl, rfl⟩, rfl⟩ := h
    exact ⟨.mk none first more, by simp [Tree.Expression.tokens, Tree.signTokens]⟩

theorem yields_moreTerms (hn : Nonterminal.moreTerms.expansion t = .ok goals)
    (h : Derives goals ts) : Nonterminal.moreTerms.Yields ts := by
  simp only [Nonterminal.expansion] at hn
  split at hn <;> cases hn <;>
    simp only [derives_fill, derives_expand, derives_nil, Slot.Admits] at h
  · obtain ⟨-, -, rfl, ⟨-, -, ⟨term, rfl⟩, ⟨-, -, ⟨more, rfl⟩, rfl, rfl⟩, rfl⟩, rfl⟩ := h
    exact ⟨.next .plus term more, by simp [Tree.Terms.tokens, Tree.Sign.mark, Fixed.token]⟩
  · obtain ⟨-, -, rfl, ⟨-, -, ⟨term, rfl⟩, ⟨-, -, ⟨more, rfl⟩, rfl, rfl⟩, rfl⟩, rfl⟩ := h
    exact ⟨.next .minus term more, by simp [Tree.Terms.tokens, Tree.Sign.mark, Fixed.token]⟩
  · exact ⟨.done, h⟩

theorem yields_moreFactors (hn : Nonterminal.moreFactors.expansion t = .ok goals)
    (h : Derives goals ts) : Nonterminal.moreFactors.Yields ts := by
  simp only [Nonterminal.expansion] at hn
  split at hn <;> cases hn <;>
    simp only [derives_fill, derives_expand, derives_nil, Slot.Admits] at h
  · obtain ⟨-, -, rfl, ⟨-, -, ⟨factor, rfl⟩, ⟨-, -, ⟨more, rfl⟩, rfl, rfl⟩, rfl⟩, rfl⟩ := h
    exact ⟨.next .times factor more,
      by simp [Tree.Factors.tokens, Tree.Scaling.mark, Fixed.token]⟩
  · obtain ⟨-, -, rfl, ⟨-, -, ⟨factor, rfl⟩, ⟨-, -, ⟨more, rfl⟩, rfl, rfl⟩, rfl⟩, rfl⟩ := h
    exact ⟨.next .dividedBy factor more,
      by simp [Tree.Factors.tokens, Tree.Scaling.mark, Fixed.token]⟩
  · exact ⟨.done, h⟩

/-- The slot of an operand admits any name or number; the form of the factor is that of the token
which has decided, so the slot has to stand for this very one. -/
theorem yields_factor (hn : Nonterminal.factor.expansion t = .ok goals) (h : Derives goals ts)
    (hfirst : goals.head? = some (fill .operand) → ∀ u us, ts = u :: us → u = t) :
    Nonterminal.factor.Yields ts := by
  simp only [Nonterminal.expansion] at hn
  split at hn
  · next x =>
    cases hn
    rw [derives_fill] at h
    obtain ⟨u, us, -, hus, rfl⟩ := h
    obtain rfl := hfirst rfl u us rfl
    rcases derives_indexed hus with rfl | ⟨index, rfl⟩
    · exact ⟨.name x, rfl⟩
    · exact ⟨.element x index, rfl⟩
  · next value digits =>
    cases hn
    simp only [derives_fill, derives_nil] at h
    obtain ⟨u, -, -, rfl, rfl⟩ := h
    obtain rfl := hfirst rfl u [] rfl
    exact ⟨.number ⟨value, digits⟩, rfl⟩
  · cases hn
    simp only [derives_fill, derives_expand, derives_nil, Slot.Admits] at h
    obtain ⟨-, -, rfl, ⟨-, -, ⟨inner, rfl⟩, ⟨-, -, rfl, rfl, rfl⟩, rfl⟩, rfl⟩ := h
    exact ⟨.group inner, by simp [Tree.Factor.tokens, Fixed.token]⟩
  · cases hn

theorem yields_index {x : String} (hn : (Nonterminal.index x).expansion t = .ok goals)
    (h : Derives goals ts) : (Nonterminal.index x).Yields ts := by
  simp only [Nonterminal.expansion] at hn
  split at hn <;> cases hn <;>
    simp only [derives_fill, derives_expand, derives_perform, derives_nil, Slot.Admits] at h
  · obtain ⟨-, -, rfl, ⟨-, -, ⟨e, rfl⟩, ⟨-, -, rfl, rfl, rfl⟩, rfl⟩, rfl⟩ := h
    exact .inr ⟨e, by simp [Fixed.token]⟩
  · exact .inl h

/-- What a nonterminal is replaced by stands for nothing else than the nonterminal does, given the
token that has decided about it; a slot for an operand has to stand for this very token. -/
theorem Nonterminal.yields_of_expansion {n : Nonterminal} (hn : n.expansion t = .ok goals)
    (h : Derives goals ts)
    (hfirst : goals.head? = some (fill .operand) → ∀ u us, ts = u :: us → u = t) : n.Yields ts := by
  cases n with
  | block b =>
    cases hn
    exact derives_blockGoals h
  | constantList => exact yields_constantList hn h
  | moreConstants => exact yields_moreConstants hn h
  | variableList => exact yields_variableList hn h
  | variableSize => exact yields_variableSize hn h
  | moreVariables => exact yields_moreVariables hn h
  | procedureList => exact yields_procedureList hn h
  | statement =>
    cases hn
    exact derives_statementGoals h
  | moreStatements => exact yields_moreStatements hn h
  | optionalInto => exact yields_optionalInto hn h
  | condition => exact yields_condition hn h
  | expression => exact yields_expression hn h
  | moreTerms => exact yields_moreTerms hn h
  | term =>
    cases hn
    simp only [derives_expand, derives_nil] at h
    obtain ⟨-, -, ⟨first, rfl⟩, ⟨-, -, ⟨more, rfl⟩, rfl, rfl⟩, rfl⟩ := h
    exact ⟨.mk first more, by simp [Tree.Term.tokens]⟩
  | moreFactors => exact yields_moreFactors hn h
  | factor => exact yields_factor hn h hfirst
  | index x => exact yields_index hn h

/-- Only the work of the whole program asks for the first token. -/
theorem Nonterminal.fetch_not_mem_of_expansion {n : Nonterminal} (hn : n.expansion t = .ok goals) :
    perform .fetch ∉ goals := by
  cases n with
  | block b => cases hn; cases b <;> simp [Nonterminal.blockGoals]
  | statement => cases hn; unfold Nonterminal.statementGoals; split <;> simp
  | term => cases hn; simp
  | _ =>
    simp only [Nonterminal.expansion] at hn
    split at hn <;> cases hn <;> simp [Nonterminal.constantGoals, Nonterminal.variableGoals,
      Nonterminal.procedureGoals]

end Expansion

/-! ### Runs -/

namespace State

/-- What is still to be read has an end: no token but the end of the input stands last. -/
def Bounded (s : State) : Prop :=
  ∀ t, s.upcoming.getLast? = some (.ok t) → t = .endOfInput

variable {s s' : State}

/-- A slot takes a token that it admits. -/
theorem upcoming_of_fill {slot : Slot} {more : List Goal} (hs : s.Bounded)
    (h : step (fill slot) s = .ok more s') :
    more = [] ∧ ∃ t, slot.Admits t ∧ s.upcoming = .ok t :: s'.upcoming := by
  rw [step_fill_eq] at h
  cases hfill : slot.fill s.depth s.scope s.lookahead.value with
  | error e => simp [hfill, State.fail] at h
  | ok r =>
    obtain ⟨scope, f⟩ := r
    have hahead : ({ s with scope := scope }.write? f).ahead = s.ahead := by cases f <;> rfl
    simp only [hfill, State.fetch, hahead] at h
    rcases hrest : s.ahead with _ | ⟨⟨line, e | t⟩, rest⟩ <;> simp only [hrest] at h
    · -- Nothing is ahead, so the input is at its end, which fills no slot.
      have hend : s.lookahead.value = .endOfInput := hs _ (by simp [upcoming, hrest])
      rw [hend] at hfill
      exact absurd hfill (slot.fill_endOfInput _ _ _)
    · cases h
    · cases h
      exact ⟨rfl, s.lookahead.value, Slot.admits_of_fill hfill, by simp [upcoming, hrest]⟩

/-- An action takes no token. -/
theorem upcoming_of_perform {a : Action} (ha : a ≠ .fetch) {u : Unit} (h : a.perform s = .ok u s') :
    s'.upcoming = s.upcoming := by
  cases a with
  | fetch => exact absurd rfl ha
  | write f => cases h; rfl
  | closeScope => cases h; rfl
  | enter =>
    simp only [Action.perform] at h
    split at h <;> cases h
    rfl
  | leave =>
    simp only [Action.perform] at h
    split at h <;> cases h
    rfl
  | checkArray x | checkPlain x | checkAtEnd =>
    simp only [Action.perform] at h
    split at h <;> cases h
    rfl

theorem Bounded.tail {i : Except LexicalError Token} (hs : s.Bounded)
    (h : s.upcoming = i :: s'.upcoming) : s'.Bounded := by
  intro t ht
  refine hs t ?_
  rw [h, List.getLast?_cons, ht]
  rfl

end State

/-- No step but that for the first token comes by a state behind the end. -/
theorem State.Bounded.step {g : Goal} {more : List Goal} {s s' : State} (hs : s.Bounded)
    (hg : g ≠ perform .fetch) (h : step g s = .ok more s') : s'.Bounded := by
  cases g with
  | expand n =>
    simp only [PlZero.step] at h
    split at h <;> cases h
    exact hs
  | fill slot =>
    obtain ⟨-, t, -, hup⟩ := State.upcoming_of_fill hs h
    exact hs.tail hup
  | perform a =>
    have hperform : a.perform s = .ok () s' := by
      simp only [PlZero.step] at h
      cases hp : a.perform s with
      | error f t => simp [hp, Outcome.leavesNone] at h
      | ok u t =>
        obtain ⟨-, rfl⟩ : more = [] ∧ s' = t := by simpa [hp, Outcome.leavesNone, eq_comm] using h
        rfl
    have hup := State.upcoming_of_perform (by simpa using hg) hperform
    simpa [State.Bounded, hup] using hs

/-- No step asks for the first token again. -/
theorem fetch_not_mem_of_step {g : Goal} {gs more : List Goal} {s s' : State}
    (hgoals : perform .fetch ∉ g :: gs) (h : step g s = .ok more s') :
    perform .fetch ∉ more ++ gs := by
  have hgs : perform .fetch ∉ gs := fun hmem => hgoals (List.mem_cons_of_mem g hmem)
  cases g with
  | expand n =>
    simp only [step] at h
    split at h
    · next hn =>
      cases h
      simpa [hgs] using Nonterminal.fetch_not_mem_of_expansion hn
    · cases h
  | fill slot => simpa [(unread_of_fill h).1] using hgs
  | perform a =>
    simp only [step] at h
    generalize a.perform s = performed at h
    cases performed <;> cases h
    simpa using hgs

/-- What is left behind a step stands for what a goal does with the tokens that the step takes. -/
theorem derives_of_step {g : Goal} {gs more : List Goal} {s s' : State} {ts : List Token}
    (hs : s.Bounded) (hg : g ≠ perform .fetch) (h : step g s = .ok more s')
    (hts : Derives (more ++ gs) ts)
    (hfirst : more.head? = some (fill .operand) → ∀ u us, ts = u :: us → u = s'.lookahead.value) :
    ∃ us, Derives (g :: gs) (us ++ ts) ∧ s.upcoming = us.map .ok ++ s'.upcoming ∧
      ∀ slot, g = fill slot → us ≠ [] := by
  cases g with
  | expand n =>
    simp only [step] at h
    split at h
    · next goals hn =>
      cases h
      obtain ⟨us, vs, hus, hvs, rfl⟩ := derives_append.mp hts
      refine ⟨[], ⟨us, vs, Nonterminal.yields_of_expansion hn hus ?_, hvs, rfl⟩, rfl, by simp⟩
      rintro hmore u us rfl
      exact hfirst hmore u (us ++ vs) rfl
    · cases h
  | fill slot =>
    obtain ⟨rfl, t, ht, hup⟩ := State.upcoming_of_fill hs h
    exact ⟨[t], derives_fill.mpr ⟨t, ts, ht, hts, rfl⟩, hup, by simp⟩
  | perform a =>
    simp only [step] at h
    cases hp : a.perform s with
    | error f t => simp [hp, Outcome.leavesNone] at h
    | ok u t =>
      obtain ⟨rfl, rfl⟩ : more = [] ∧ s' = t := by simpa [hp, Outcome.leavesNone, eq_comm] using h
      have hup := State.upcoming_of_perform (by simpa using hg) hp
      exact ⟨[], derives_perform.mpr hts, hup.symm, by simp⟩

/-- A run that works off goals takes tokens that the goals stand for. -/
theorem derives_of_run {goals : List Goal} {s s' : State} (hs : s.Bounded)
    (hgoals : perform .fetch ∉ goals) (h : run goals s = .ok () s') :
    ∃ ts, Derives goals ts ∧ s.upcoming = ts.map .ok ++ s'.upcoming := by
  -- From the end of the run backwards: each step puts what it takes in front of what follows.
  induction goals, s using run_induction with
  | nil s =>
    rw [run_nil] at h
    cases h
    exact ⟨[], rfl, rfl⟩
  | stop g gs s f t hstep =>
    rw [run_cons, hstep] at h
    cases h
  | next g gs s more t hstep ih =>
    have hg : g ≠ perform .fetch := fun hfetch => hgoals (hfetch ▸ List.mem_cons_self)
    rw [run_cons, hstep] at h
    obtain ⟨ts, hts, hup⟩ := ih (hs.step hg hstep) (fetch_not_mem_of_step hgoals hstep) h
    obtain ⟨us, hus, hup', -⟩ := derives_of_step hs hg hstep hts (by
      rintro - u us rfl
      exact (State.lookahead_of_upcoming hup).symm)
    exact ⟨us ++ ts, hus, by simp [hup', hup]⟩

/-! ### Programs -/

/-- A failure in front of the first token stops the compiler. -/
theorem compileItems_error (line : Line) (e : LexicalError) (rest : List Item) :
    ∃ s, compileItems (⟨line, .error e⟩ :: rest) = .error ⟨line, .lexical e⟩ s := by
  simp only [compileItems, programGoals, run_cons, step, Action.perform, Outcome.leavesNone,
    State.emit_eq_write, State.fetch, State.write, State.start, List.nil_append]
  exact ⟨_, rfl⟩

theorem derives_program {ts : List Token} (h : Derives [expand (.block .program), mark .dot] ts) :
    ∃ p : Tree.Program, ts = p.tokens := by
  simp only [derives_expand, derives_fill, derives_nil, Slot.Admits] at h
  obtain ⟨-, -, ⟨b, rfl⟩, ⟨-, -, rfl, rfl, rfl⟩, rfl⟩ := h
  exact ⟨⟨b⟩, rfl⟩

/-- The last check leaves the end of the input before it. -/
theorem lookahead_of_checkAtEnd {gs : List Goal} {s s' : State}
    (h : run (perform .checkAtEnd :: gs) s = .ok () s') : s.lookahead.value = .endOfInput := by
  by_cases hend : s.lookahead.value = .endOfInput
  · exact hend
  · simp [run_cons, step, Action.perform, hend, State.fail, Outcome.leavesNone] at h

/-- What stands in a list at its end only is its last member. -/
theorem eq_nil_of_append_cons {α : Type} {as bs r : List α} {a b : α}
    (h : as ++ a :: r = bs ++ [b]) (ha : a ∉ bs) : as = bs ∧ a = b ∧ r = [] := by
  rcases r.eq_nil_or_concat with rfl | ⟨r, c, rfl⟩
  · obtain ⟨rfl, hab⟩ := List.append_inj' h rfl
    exact ⟨rfl, (List.cons.inj hab).1, rfl⟩
  · have hassoc : (as ++ a :: r) ++ [c] = bs ++ [b] := by simpa using h
    have hbs := List.append_inj_left' hassoc rfl
    exact absurd (hbs ▸ List.mem_append_right as List.mem_cons_self) ha

/-- The items up to the end of the input are the tokens of the text. -/
theorem Source.reads_of_prefix {source : Source} {ts : List Token}
    {r : List (Except LexicalError Token)}
    (h : source.items.map Located.value = ts.map .ok ++ .ok .endOfInput :: r) :
    source.Reads ts := by
  have hnot : ∀ tokens : List Token, .endOfInput ∉ tokens →
      (.ok .endOfInput : Except LexicalError Token) ∉ tokens.map .ok := by simp
  rcases source.items_cases with ⟨tokens, htokens⟩ | ⟨tokens, e, hitems, hend⟩
  · have hend := hnot tokens fun hmem => (htokens.wellFormed _ hmem).2 rfl
    obtain ⟨-, -, rfl⟩ := eq_nil_of_append_cons (h.symm.trans (Source.reads_iff.mp htokens)) hend
    exact Source.reads_iff.mpr h
  · obtain ⟨-, habs, -⟩ := eq_nil_of_append_cons (h.symm.trans hitems) (hnot tokens hend)
    cases habs

/-- A text begins with a failure, or with an item that is looked at first. -/
theorem Source.items_eq_cons (source : Source) :
    (∃ line e rest, source.items = ⟨line, .error e⟩ :: rest) ∨
      ∃ line t rest, source.items = ⟨line, .ok t⟩ :: rest ∧
        (Tree.afterFirst ⟨line, t⟩ rest).Bounded := by
  obtain ⟨tokens, last, hitems, hlast, -⟩ := Cursor.items_eq_append (.start source.text)
  obtain ⟨⟨line, i⟩, rest, hcons⟩ : ∃ i rest, source.items = i :: rest := by
    rw [← List.ne_nil_iff_exists_cons, Source.items, hitems]
    simp
  cases i with
  | error e => exact .inl ⟨line, e, rest, hcons⟩
  | ok t =>
    refine .inr ⟨line, t, rest, hcons, fun u hu => ?_⟩
    have hup : (Tree.afterFirst ⟨line, t⟩ rest).upcoming = source.items.map Located.value := by
      rw [hcons]
      rfl
    rw [hup, Source.items, hitems] at hu
    have hvalue : last.value = .ok u := by simpa using hu
    cases u <;> simp_all [Cursor.isLast]

/-- **What the compiler finishes on is a sentence.** The text has the tokens of a tree, and reading
it does not fail. -/
theorem sentence_of_finished {source : Source} {s : State}
    (h : compileItems source.items = .ok () s) : ∃ p : Tree.Program, source.Reads p.tokens := by
  rcases source.items_eq_cons with ⟨line, e, rest, hcons⟩ | ⟨line, t, rest, hcons, hbounded⟩
  · obtain ⟨s', herror⟩ := compileItems_error line e rest
    rw [hcons, herror] at h
    cases h
  · rw [hcons, Tree.compileItems_cons] at h
    have hrun := run_append [expand (.block .program), mark .dot]
      [perform .checkAtEnd, write .trailer] (Tree.afterFirst ⟨line, t⟩ rest)
    rw [List.cons_append, List.cons_append, List.nil_append, h] at hrun
    cases hfirst : run [expand (.block .program), mark .dot] (Tree.afterFirst ⟨line, t⟩ rest) with
    | error f s' => rw [hfirst] at hrun; cases hrun
    | ok _ s' =>
      obtain ⟨ts, hts, hsplit⟩ := derives_of_run hbounded (by simp) hfirst
      obtain ⟨p, rfl⟩ := derives_program hts
      rw [hfirst] at hrun
      have hend := lookahead_of_checkAtEnd hrun.symm
      have hup : (Tree.afterFirst ⟨line, t⟩ rest).upcoming = source.items.map Located.value := by
        rw [hcons]
        rfl
      exact ⟨p, Source.reads_of_prefix (r := s'.ahead.map Located.value)
        (by rw [← hup, hsplit, State.upcoming, hend])⟩

end PlZero
