import PlZero.Proofs.Tree

/-!
# Values of expressions and conditions

What an expression means, read off the grammar of PL/0: a sum is formed from left to right, and so
is a product, a quotient is cut off toward zero, and a sign at the beginning belongs to the whole
first term. Numbers are unbounded, and dividing by zero gives zero.

What the names and the elements of arrays stand for is given (`Environment`). An index may be any
number.
-/

namespace PlZero

/-- A number for each name, and one for each index of an array. -/
structure Environment where
  name : String → Int
  element : String → Int → Int

namespace Tree

def Sign.apply : Sign → Int → Int
  | plus, v => v
  | minus, v => -v

/-- The sum or the difference. -/
def Sign.join : Sign → Int → Int → Int
  | plus, u, v => u + v
  | minus, u, v => u - v

def Scaling.apply : Scaling → Int → Int → Int
  | times, u, v => u * v
  | dividedBy, u, v => u.tdiv v

def Relation.Holds : Relation → Int → Int → Prop
  | equal, u, v => u = v
  | unequal, u, v => u ≠ v
  | below, u, v => u < v
  | above, u, v => u > v

instance : (r : Relation) → (u v : Int) → Decidable (r.Holds u v)
  | .equal, u, v => inferInstanceAs (Decidable (u = v))
  | .unequal, u, v => inferInstanceAs (Decidable (u ≠ v))
  | .below, u, v => inferInstanceAs (Decidable (u < v))
  | .above, u, v => inferInstanceAs (Decidable (u > v))

/-- The value with a sign in front of it that may be missing. -/
def signedValue : Option Sign → Int → Int
  | none, v => v
  | some sign, v => sign.apply v

section

variable (env : Environment)

mutual

def Expression.value : Expression → Int
  | .mk sign first more => more.value (signedValue sign first.value)

/-- The sum of the terms and what stands in front of them. -/
def Terms.value : Terms → Int → Int
  | .done, left => left
  | .next sign term more, left => more.value (sign.join left term.value)

def Term.value : Term → Int
  | .mk first more => more.value first.value

/-- The product of the factors and what stands in front of them. -/
def Factors.value : Factors → Int → Int
  | .done, left => left
  | .next scaling factor more, left => more.value (scaling.apply left factor.value)

def Factor.value : Factor → Int
  | .name x => env.name x
  | .element x index => env.element x index.value
  | .number n => n.value
  | .group inner => inner.value

end

def Condition.Holds : Condition → Prop
  | .odd e => e.value env % 2 = 1
  | .compare left relation right => relation.Holds (left.value env) (right.value env)

instance : (c : Condition) → Decidable (c.Holds env)
  | .odd e => inferInstanceAs (Decidable (e.value env % 2 = 1))
  | .compare left relation right =>
    inferInstanceAs (Decidable (relation.Holds (left.value env) (right.value env)))

/-- A sign in front of a product belongs to its first factor as well, since quotients are cut off
toward zero. -/
theorem Factors.value_neg (t : Factors) (v : Int) : t.value env (-v) = -t.value env v := by
  match t with
  | .done => rfl
  | .next .times factor more =>
    rw [Factors.value, Factors.value, Scaling.apply, Scaling.apply, Int.neg_mul]
    exact more.value_neg _
  | .next .dividedBy factor more =>
    rw [Factors.value, Factors.value, Scaling.apply, Scaling.apply, Int.neg_tdiv]
    exact more.value_neg _

theorem Factors.value_signedValue (t : Factors) (sign : Option Sign) (v : Int) :
    t.value env (signedValue sign v) = signedValue sign (t.value env v) := by
  match sign with
  | none | some .plus => rfl
  | some .minus => exact t.value_neg env v

end

end Tree

end PlZero
