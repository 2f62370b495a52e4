import PlZero.Proofs.C.Fragments
import PlZero.Proofs.C.Readings
import PlZero.Proofs.Tree

/-!
# Expressions and conditions as C reads them

C reads the code of an expression as a sum of products from left to right, as it is meant, except
that a sign at the beginning belongs to the first factor only (`Expression.toC`). A condition
becomes a comparison or a conjunction of bits (`Condition.toC`). That nothing else can be read
follows from `C.Reads.unique`.

So an expression of PL/0 becomes one of C, where no operator binds more loosely than the addition
(`Expression.isExpression`).
-/

namespace PlZero.Tree

/-- No keyword of C is among the names. -/
def FreeOfKeywords (uses : List Occurrence) : Prop := ∀ o ∈ uses, o.name ∉ C.keywords

/-! ### Trees of C -/

def Sign.toUnary : Sign → C.Unary
  | plus => .plus
  | minus => .minus

def Sign.toOperator : Sign → C.Operator
  | plus => .plus
  | minus => .minus

def Scaling.toOperator : Scaling → C.Operator
  | times => .times
  | dividedBy => .dividedBy

def Relation.toOperator : Relation → C.Operator
  | equal => .equal
  | unequal => .unequal
  | below => .below
  | above => .above

/-- What is read, with a sign in front of it that may be missing. -/
def signedReading : Option Sign → C.Reading → C.Reading
  | none, r => r
  | some sign, r => .unary sign.toUnary r

mutual

def Expression.toC : Expression → C.Reading
  | .mk sign first more => more.toC (first.toC sign)

/-- The sum of the terms and what stands in front of them. -/
def Terms.toC : Terms → C.Reading → C.Reading
  | .done, left => left
  | .next sign term more, left => more.toC (.binary sign.toOperator left (term.toC none))

/-- A sign in front of a term is one in front of its first factor. -/
def Term.toC : Term → Option Sign → C.Reading
  | .mk first more, sign => more.toC (signedReading sign first.toC)

/-- The product of the factors and what stands in front of them. -/
def Factors.toC : Factors → C.Reading → C.Reading
  | .done, left => left
  | .next scaling factor more, left => more.toC (.binary scaling.toOperator left factor.toC)

def Factor.toC : Factor → C.Reading
  | .name x => .name x
  | .element x index => .element x index.toC
  | .number n => .constant (Text.decimal n.value)
  | .group inner => inner.toC

end

def Condition.toC : Condition → C.Reading
  | .odd e => .binary .and e.toC (.constant "1")
  | .compare left relation right => .binary relation.toOperator left.toC right.toC

/-! ### Tokens -/

theorem Sign.spelling_toUnary (sign : Sign) : sign.toUnary.spelling = sign.mark.spelling := by
  cases sign <;> rfl

theorem Sign.spelling_toOperator (sign : Sign) : sign.toOperator.spelling = sign.mark.spelling := by
  cases sign <;> rfl

theorem Sign.level_toOperator (sign : Sign) : sign.toOperator.level = 4 := by
  cases sign <;> rfl

theorem Scaling.spelling_toOperator (scaling : Scaling) :
    scaling.toOperator.spelling = scaling.mark.spelling := by
  cases scaling <;> rfl

theorem Scaling.level_toOperator (scaling : Scaling) : scaling.toOperator.level = 3 := by
  cases scaling <;> rfl

theorem Relation.tokens_fragment (relation : Relation) :
    relation.fragment.tokens = [.mark relation.toOperator.spelling] := by
  cases relation <;> rfl

theorem Relation.level_toOperator (relation : Relation) :
    6 ≤ relation.toOperator.level ∧ relation.toOperator.level ≤ 15 := by
  cases relation <;> decide

/-- A sign in front of a first factor belongs to that factor. -/
theorem reads_signed (sign : Option Sign) {ts : List C.Token} {r : C.Reading} (h : C.Reads 0 ts r) :
    C.Reads 3 (cTokens (signFragments sign) ++ ts) (signedReading sign r) := by
  cases sign with
  | none => exact h.loosen (by decide)
  | some s =>
    have hsigned : C.Reads 1 (.mark s.toUnary.spelling :: ts) (.unary s.toUnary r) :=
      .unary (h.loosen (by decide))
    rw [s.spelling_toUnary] at hsigned
    exact hsigned.loosen (by decide)

mutual

/-- **C reads the code of an expression as its tree of C.** -/
theorem Expression.reads (e : Expression) (h : FreeOfKeywords e.uses) :
    C.Reads 4 (cTokens e.fragments) e.toC := by
  match e with
  | .mk sign first more =>
    have hfirst := first.reads sign fun o ho => h o (by simp [Expression.uses, ho])
    have hmore := more.reads (fun o ho => h o (by simp [Expression.uses, ho]))
      (hfirst.loosen (by decide : 3 ≤ 4))
    simpa [Expression.fragments, Expression.toC] using hmore

theorem Terms.reads (t : Terms) (h : FreeOfKeywords t.uses) {ts : List C.Token} {left : C.Reading}
    (hleft : C.Reads 4 ts left) : C.Reads 4 (ts ++ cTokens t.fragments) (t.toC left) := by
  match t with
  | .done => simpa [Terms.fragments, Terms.toC] using hleft
  | .next sign term more =>
    have hterm := term.reads none fun o ho => h o (by simp [Terms.uses, ho])
    have hsum : C.Reads 4 (ts ++ .mark sign.toOperator.spelling :: cTokens term.fragments)
        (.binary sign.toOperator left (term.toC none)) := by
      have hlevel := sign.level_toOperator
      exact hlevel ▸ .binary (hlevel.symm ▸ hleft) (hlevel.symm ▸ hterm)
    have hmore := more.reads (fun o ho => h o (by simp [Terms.uses, ho])) hsum
    simpa [Terms.fragments, Terms.toC, Fragment.tokens, sign.spelling_toOperator] using hmore

theorem Term.reads (t : Term) (sign : Option Sign) (h : FreeOfKeywords t.uses) :
    C.Reads 3 (cTokens (signFragments sign) ++ cTokens t.fragments) (t.toC sign) := by
  match t with
  | .mk first more =>
    have hfirst := first.reads fun o ho => h o (by simp [Term.uses, ho])
    have hmore := more.reads (fun o ho => h o (by simp [Term.uses, ho])) (reads_signed sign hfirst)
    simpa [Term.fragments, Term.toC] using hmore

theorem Factors.reads (t : Factors) (h : FreeOfKeywords t.uses) {ts : List C.Token}
    {left : C.Reading} (hleft : C.Reads 3 ts left) :
    C.Reads 3 (ts ++ cTokens t.fragments) (t.toC left) := by
  match t with
  | .done => simpa [Factors.fragments, Factors.toC] using hleft
  | .next scaling factor more =>
    have hfactor := factor.reads fun o ho => h o (by simp [Factors.uses, ho])
    have hproduct :
        C.Reads 3 (ts ++ .mark scaling.toOperator.spelling :: cTokens factor.fragments)
          (.binary scaling.toOperator left factor.toC) := by
      have hlevel := scaling.level_toOperator
      exact hlevel ▸ .binary (hlevel.symm ▸ hleft) (hfactor.loosen (Nat.zero_le _))
    have hmore := more.reads (fun o ho => h o (by simp [Factors.uses, ho])) hproduct
    simpa [Factors.fragments, Factors.toC, Fragment.tokens, scaling.spelling_toOperator] using hmore

theorem Factor.reads (t : Factor) (h : FreeOfKeywords t.uses) :
    C.Reads 0 (cTokens t.fragments) t.toC := by
  match t with
  | .name x => exact .name (h ⟨x, .operand, .plain⟩ (by simp [Factor.uses]))
  | .element x index =>
    have hx : x ∉ C.keywords := h ⟨x, .operand, .array⟩ (by simp [Factor.uses])
    have hindex := index.reads fun o ho => h o (by simp [Factor.uses, ho])
    have hall := C.Reads.element hx (hindex.loosen (by decide))
    simpa [Factor.fragments, Factor.toC, Fragment.tokens, Mark.spelling] using hall
  | .number n => exact .constant _
  | .group inner =>
    have hinner := inner.reads fun o ho => h o (by simp [Factor.uses, ho])
    have hall := C.Reads.group (hinner.loosen (by decide))
    simpa [Factor.fragments, Factor.toC, Fragment.tokens, Mark.spelling] using hall

end

/-- **C reads the code of a condition as its tree of C.** -/
theorem Condition.reads (c : Condition) (h : FreeOfKeywords c.uses) :
    C.Reads 15 (cTokens c.fragments) c.toC := by
  cases c with
  | odd e =>
    have he := e.reads fun o ho => h o (by simp [Condition.uses, ho])
    have hgroup := C.Reads.group (he.loosen (by decide : 4 ≤ 15))
    have hone : C.Reads 7 [.number "1"] (.constant "1") :=
      (C.Reads.constant "1").loosen (by decide)
    have hall : C.Reads C.Operator.and.level (_ ++ .mark C.Operator.and.spelling :: [.number "1"])
        (.binary .and e.toC (.constant "1")) := .binary (hgroup.loosen (by decide)) hone
    simpa [Condition.fragments, Condition.toC, Fragment.tokens, C.Operator.spelling]
      using hall.loosen (by decide : 8 ≤ 15)
  | compare left relation right =>
    have hleft := left.reads fun o ho => h o (by simp [Condition.uses, ho])
    have hright := right.reads fun o ho => h o (by simp [Condition.uses, ho])
    obtain ⟨hleast, hmost⟩ := relation.level_toOperator
    have hcompare : C.Reads relation.toOperator.level (cTokens left.fragments ++
        .mark relation.toOperator.spelling :: cTokens right.fragments)
        (.binary relation.toOperator left.toC right.toC) :=
      .binary (hleft.loosen (by omega)) (hright.loosen (by omega))
    simpa [Condition.fragments, Condition.toC, relation.tokens_fragment] using hcompare.loosen hmost

theorem Expression.isExpression (e : Expression) (h : FreeOfKeywords e.uses) :
    C.Expression 4 (cTokens e.fragments) :=
  (e.reads h).expression

theorem Condition.isExpression (c : Condition) (h : FreeOfKeywords c.uses) :
    C.Expression 15 (cTokens c.fragments) :=
  (c.reads h).expression

end PlZero.Tree
