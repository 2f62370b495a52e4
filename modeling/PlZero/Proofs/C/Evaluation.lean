import Mathlib.Data.Int.Bitwise
import PlZero.Proofs.C.Control
import PlZero.Proofs.Values

/-!
# The values of generated expressions

The value of an expression of C follows from how it is read (`C.Reading.value`). Since the code of
an expression of PL/0 can be read in one way only, it has one value, and that is the value of the
expression (`Expression.value_toC`), though the two trees differ: C applies a sign to the first
factor and not to the first term. The code of a condition has the value 1 if the condition holds,
and 0 if not.

This is so of each expression and each condition of an accepted text, at any nesting
(`evaluation_of_code`). In the output it stands between brackets, relations and other tokens that
bind more loosely than its operators (`Source.Encloses`).
-/

namespace PlZero

/-! ### Values in C -/

namespace C

/-- The number in decimal digits, or in octal ones behind a zero. -/
def constantValue (text : String) : Int :=
  match text.toList with
  | '0' :: digits => Nat.ofDigitChars 8 digits 0
  | digits => Nat.ofDigitChars 10 digits 0

/-- The value of a comparison. -/
def truth (p : Prop) [Decidable p] : Int := if p then 1 else 0

def Unary.apply : Unary → Int → Int
  | plus, v => v
  | minus, v => -v

/-- Quotients are cut off toward zero, and bits are those of two's complement. -/
def Operator.apply : Operator → Int → Int → Int
  | times, u, v => u * v
  | dividedBy, u, v => u.tdiv v
  | plus, u, v => u + v
  | minus, u, v => u - v
  | below, u, v => truth (u < v)
  | above, u, v => truth (u > v)
  | equal, u, v => truth (u = v)
  | unequal, u, v => truth (u ≠ v)
  | and, u, v => u.land v

def Reading.value (env : Environment) : Reading → Int
  | name x => env.name x
  | element x index => env.element x (index.value env)
  | constant text => constantValue text
  | unary op operand => op.apply (operand.value env)
  | binary op left right => op.apply (left.value env) (right.value env)

/-- The tokens are read as an expression in one way, and this is its value. -/
def Evaluates (ts : List Token) (value : Environment → Int) : Prop :=
  ∃ r, (∀ r', Reads 15 ts r' ↔ r' = r) ∧ ∀ env, r.value env = value env

theorem Reads.evaluates {ts : List Token} {r : Reading} {value : Environment → Int}
    (h : Reads 15 ts r) (hvalue : ∀ env, r.value env = value env) : Evaluates ts value :=
  ⟨r, fun _ => ⟨fun h' => h'.unique h, fun heq => heq ▸ h⟩, hvalue⟩

/-- The digits of a positive number do not begin with a zero. -/
theorem head?_toDigits {n : Nat} (h : 0 < n) : (Nat.toDigits 10 n).head? ≠ some '0' := by
  induction n using Nat.strongRecOn with
  | ind n ih =>
    by_cases hn : n < 10
    · rw [Nat.toDigits_of_lt_base hn]
      simpa using Nat.pos_iff_ne_zero.mp h
    · have hhead := ih (n / 10) (Nat.div_lt_self h (by decide)) (by omega)
      rw [Nat.toDigits_of_base_le (by decide) (Nat.le_of_not_lt hn), List.head?_append]
      cases hdigits : Nat.toDigits 10 (n / 10) with
      | nil => exact absurd hdigits Nat.toDigits_ne_nil
      | cons c cs => simpa [hdigits] using hhead

/-- C reads the digits of a number as that number. -/
theorem constantValue_decimal {n : Int} (h : 0 ≤ n) : constantValue (Text.decimal n) = n := by
  obtain ⟨m, rfl⟩ := Int.eq_ofNat_of_zero_le h
  rw [constantValue, Text.toList_decimal_natCast]
  rcases Nat.eq_zero_or_pos m with rfl | hm
  · rfl
  · have hhead := head?_toDigits hm
    split
    · next hdigits => simp [hdigits] at hhead
    · exact congrArg Int.ofNat Nat.ofDigitChars_ten_toDigits

/-- The last bit tells whether a number is odd. -/
theorem land_one (v : Int) : v.land 1 = v % 2 := by
  have hzero : v.div2.land 0 = 0 := by cases v.div2 <;> simp [Int.land, Nat.ldiff]
  have hbit := Int.land_bit v.bodd v.div2 true 0
  rw [Int.bit_decomp, hzero, Bool.and_true] at hbit
  have hparity := Int.bodd_add_div2 v
  have hone : Int.bit true 0 = 1 := rfl
  rw [← hone, hbit]
  cases hodd : v.bodd with
  | true =>
    rw [hodd, cond_true] at hparity
    rw [hone]
    omega
  | false =>
    rw [hodd, cond_false] at hparity
    change (0 : Int) = v % 2
    omega

end C

/-! ### Values of trees -/

namespace Tree

variable (env : Environment)

theorem value_signedReading (sign : Option Sign) (r : C.Reading) :
    (signedReading sign r).value env = signedValue sign (r.value env) := by
  match sign with
  | none | some .plus | some .minus => rfl

theorem Sign.apply_toOperator (sign : Sign) (u v : Int) :
    sign.toOperator.apply u v = sign.join u v := by
  cases sign <;> rfl

theorem Scaling.apply_toOperator (scaling : Scaling) (u v : Int) :
    scaling.toOperator.apply u v = scaling.apply u v := by
  cases scaling <;> rfl

theorem Relation.apply_toOperator (relation : Relation) (u v : Int) :
    relation.toOperator.apply u v = C.truth (relation.Holds u v) := by
  cases relation <;> rfl

mutual

/-- **What C reads has the value of the expression.** -/
theorem Expression.value_toC (e : Expression) (h : ∀ f ∈ e.fragments, f.WellFormed) :
    e.toC.value env = e.value env := by
  match e with
  | .mk sign first more =>
    have hfirst := first.value_toC sign fun f hf => h f (by simp [Expression.fragments, hf])
    rw [Expression.toC, Expression.value,
      more.value_toC fun f hf => h f (by simp [Expression.fragments, hf]), hfirst]

theorem Terms.value_toC (t : Terms) (h : ∀ f ∈ t.fragments, f.WellFormed) (left : C.Reading) :
    (t.toC left).value env = t.value env (left.value env) := by
  match t with
  | .done => rfl
  | .next sign term more =>
    have hterm := term.value_toC none fun f hf => h f (by simp [Terms.fragments, hf])
    rw [Terms.toC, Terms.value, more.value_toC fun f hf => h f (by simp [Terms.fragments, hf]),
      C.Reading.value, hterm, sign.apply_toOperator]
    rfl

theorem Term.value_toC (t : Term) (sign : Option Sign) (h : ∀ f ∈ t.fragments, f.WellFormed) :
    (t.toC sign).value env = signedValue sign (t.value env) := by
  match t with
  | .mk first more =>
    have hfirst := first.value_toC fun f hf => h f (by simp [Term.fragments, hf])
    -- C has applied the sign to the first factor; it passes through products and quotients.
    rw [Term.toC, Term.value, more.value_toC fun f hf => h f (by simp [Term.fragments, hf]),
      value_signedReading, hfirst, more.value_signedValue]

theorem Factors.value_toC (t : Factors) (h : ∀ f ∈ t.fragments, f.WellFormed) (left : C.Reading) :
    (t.toC left).value env = t.value env (left.value env) := by
  match t with
  | .done => rfl
  | .next scaling factor more =>
    have hfactor := factor.value_toC fun f hf => h f (by simp [Factors.fragments, hf])
    rw [Factors.toC, Factors.value,
      more.value_toC fun f hf => h f (by simp [Factors.fragments, hf]), C.Reading.value, hfactor,
      scaling.apply_toOperator]

theorem Factor.value_toC (t : Factor) (h : ∀ f ∈ t.fragments, f.WellFormed) :
    t.toC.value env = t.value env := by
  match t with
  | .name x => rfl
  | .element x index =>
    have hindex := index.value_toC fun f hf => h f (by simp [Factor.fragments, hf])
    exact congrArg (env.element x) hindex
  | .number n => exact C.constantValue_decimal (h (.number n.value) (by simp [Factor.fragments]))
  | .group inner => exact inner.value_toC fun f hf => h f (by simp [Factor.fragments, hf])

end

/-- What C reads is 1 if the condition holds, and 0 if not. -/
theorem Condition.value_toC (c : Condition) (h : ∀ f ∈ c.fragments, f.WellFormed) :
    c.toC.value env = C.truth (c.Holds env) := by
  cases c with
  | odd e =>
    have he := e.value_toC env fun f hf => h f (by simp [Condition.fragments, hf])
    have hvalue : (Condition.odd e).toC.value env = e.value env % 2 :=
      he ▸ C.land_one (e.toC.value env)
    have htruth : C.truth ((Condition.odd e).Holds env) = if e.value env % 2 = 1 then 1 else 0 :=
      rfl
    rw [hvalue, htruth]
    split <;> omega
  | compare left relation right =>
    have hleft := left.value_toC env fun f hf => h f (by simp [Condition.fragments, hf])
    have hright := right.value_toC env fun f hf => h f (by simp [Condition.fragments, hf])
    rw [Condition.toC, C.Reading.value, hleft, hright, relation.apply_toOperator]
    rfl

/-! ### Where expressions stand -/

/-- The tokens that stand in front of an expression. -/
def opening : List C.Token :=
  [.mark "=", .mark "(", .mark "[", .mark "==", .mark "!=", .mark "<", .mark ">"]

/-- The tokens that stand behind an expression. -/
def closing : List C.Token :=
  [.mark ";", .mark ")", .mark "]", .mark "==", .mark "!=", .mark "<", .mark ">"]

/-- The fragment ends with a token that stands in front of an expression. -/
def Opens (f : Fragment) : Prop := ∃ ts, ∃ t ∈ opening, f.tokens = ts ++ [t]

/-- The fragment begins with a token that stands behind an expression. -/
def Closes (f : Fragment) : Prop := ∃ t ∈ closing, ∃ ts, f.tokens = t :: ts

theorem opens_mark {m : Mark} (h : .mark m.spelling ∈ opening) : Opens (.mark m) :=
  ⟨[], _, h, rfl⟩

theorem closes_mark {m : Mark} (h : .mark m.spelling ∈ closing) : Closes (.mark m) :=
  ⟨_, h, [], rfl⟩

theorem Relation.opens (relation : Relation) : Opens relation.fragment :=
  ⟨[], _, by cases relation <;> decide, relation.tokens_fragment⟩

theorem Relation.closes (relation : Relation) : Closes relation.fragment :=
  ⟨_, by cases relation <;> decide, [], relation.tokens_fragment⟩

theorem IsClosing.closes {f : Fragment} (h : IsClosing f) : Closes f :=
  ⟨.mark ";", by decide, h.2⟩

/-- Some code stands in other code, between a fragment that opens and one that closes. -/
def Enclosed (fs gs : List Fragment) : Prop :=
  ∃ before f after g, fs = before ++ f :: (gs ++ g :: after) ∧ Opens f ∧ Closes g

/-- The expression stands in some code, and its names are among others. -/
structure Within (e : Expression) (fs : List Fragment) (uses : List Occurrence) : Prop where
  enclosed : Enclosed fs e.fragments
  uses_subset : e.uses ⊆ uses

theorem Enclosed.mono {fs fs' gs : List Fragment} (h : Enclosed fs gs) (hfs : fs <:+: fs') :
    Enclosed fs' gs := by
  obtain ⟨before, f, after, g, rfl, hf, hg⟩ := h
  obtain ⟨front, rest, rfl⟩ := hfs
  exact ⟨front ++ before, f, after ++ rest, g, by simp, hf, hg⟩

theorem Within.mono {e : Expression} {fs fs' : List Fragment} {uses uses' : List Occurrence}
    (h : Within e fs uses) (hfs : fs <:+: fs') (huses : uses ⊆ uses') : Within e fs' uses' :=
  ⟨h.enclosed.mono hfs, List.Subset.trans h.uses_subset huses⟩

mutual

/-- The expression itself, and those inside it at any nesting. -/
def Expression.parts : Expression → List Expression
  | .mk sign first more => .mk sign first more :: (first.parts ++ more.parts)

def Terms.parts : Terms → List Expression
  | .done => []
  | .next _ term more => term.parts ++ more.parts

def Term.parts : Term → List Expression
  | .mk first more => first.parts ++ more.parts

def Factors.parts : Factors → List Expression
  | .done => []
  | .next _ factor more => factor.parts ++ more.parts

def Factor.parts : Factor → List Expression
  | .name _ | .number _ => []
  | .element _ index => index.parts
  | .group inner => inner.parts

end

/-- The expressions of a condition, at any nesting. -/
def Condition.parts : Condition → List Expression
  | .odd e => e.parts
  | .compare left _ right => left.parts ++ right.parts

/-- The expressions of a statement at any nesting, without those of the statements inside it. -/
def Statement.expressions : Statement → List Expression
  | .assign _ value => value.parts
  | .assignElement _ index value => index.parts ++ value.parts
  | .ifThen c _ | .whileDo c _ => c.parts
  | _ => []

mutual

/-- Where an expression is enclosed, its parts are enclosed as well. -/
theorem Expression.within_of_mem_parts (e : Expression) {part : Expression} (h : part ∈ e.parts)
    {f g : Fragment} (hf : Opens f) (hg : Closes g) :
    Within part (f :: (e.fragments ++ [g])) e.uses := by
  match e with
  | .mk sign first more =>
    rcases List.mem_cons.mp h with rfl | h
    · exact ⟨⟨[], f, [], g, rfl, hf, hg⟩, List.Subset.refl _⟩
    rcases List.mem_append.mp h with h | h
    · exact (first.within_of_mem_parts h).mono
        ⟨f :: signFragments sign, more.fragments ++ [g], by simp [Expression.fragments]⟩
        (List.subset_append_left ..)
    · exact (more.within_of_mem_parts h).mono
        ⟨f :: (signFragments sign ++ first.fragments), [g], by simp [Expression.fragments]⟩
        (List.subset_append_right ..)

theorem Terms.within_of_mem_parts (t : Terms) {part : Expression} (h : part ∈ t.parts) :
    Within part t.fragments t.uses := by
  match t with
  | .done => cases h
  | .next sign term more =>
    rcases List.mem_append.mp h with h | h
    · exact (term.within_of_mem_parts h).mono
        ⟨[.mark sign.mark], more.fragments, by simp [Terms.fragments]⟩
        (List.subset_append_left ..)
    · exact (more.within_of_mem_parts h).mono
        ⟨.mark sign.mark :: term.fragments, [], by simp [Terms.fragments]⟩
        (List.subset_append_right ..)

theorem Term.within_of_mem_parts (t : Term) {part : Expression} (h : part ∈ t.parts) :
    Within part t.fragments t.uses := by
  match t with
  | .mk first more =>
    rcases List.mem_append.mp h with h | h
    · exact (first.within_of_mem_parts h).mono ⟨[], more.fragments, rfl⟩
        (List.subset_append_left ..)
    · exact (more.within_of_mem_parts h).mono ⟨first.fragments, [], by simp [Term.fragments]⟩
        (List.subset_append_right ..)

theorem Factors.within_of_mem_parts (t : Factors) {part : Expression} (h : part ∈ t.parts) :
    Within part t.fragments t.uses := by
  match t with
  | .done => cases h
  | .next scaling factor more =>
    rcases List.mem_append.mp h with h | h
    · exact (factor.within_of_mem_parts h).mono
        ⟨[.mark scaling.mark], more.fragments, by simp [Factors.fragments]⟩
        (List.subset_append_left ..)
    · exact (more.within_of_mem_parts h).mono
        ⟨.mark scaling.mark :: factor.fragments, [], by simp [Factors.fragments]⟩
        (List.subset_append_right ..)

theorem Factor.within_of_mem_parts (t : Factor) {part : Expression} (h : part ∈ t.parts) :
    Within part t.fragments t.uses := by
  match t with
  | .name _ | .number _ => cases h
  | .element x index =>
    have hindex := index.within_of_mem_parts h (f := .mark .leftBracket) (g := .mark .rightBracket)
      (opens_mark (by decide)) (closes_mark (by decide))
    exact hindex.mono ⟨[.name x], [], by simp [Factor.fragments]⟩ (List.subset_cons_self ..)
  | .group inner =>
    exact inner.within_of_mem_parts h (opens_mark (by decide)) (closes_mark (by decide))

end

theorem Condition.within_of_mem_parts (c : Condition) {part : Expression} (h : part ∈ c.parts)
    {f g : Fragment} (hf : Opens f) (hg : Closes g) :
    Within part (f :: (c.fragments ++ [g])) c.uses := by
  cases c with
  | odd e =>
    have hopens : Opens .oddHead := ⟨[], .mark "(", by decide, rfl⟩
    have hcloses : Closes .oddEnd := ⟨.mark ")", by decide, _, rfl⟩
    have he := e.within_of_mem_parts h hopens hcloses
    exact he.mono ⟨[f], [g], by simp [Condition.fragments]⟩ (List.Subset.refl _)
  | compare left relation right =>
    rcases List.mem_append.mp h with h | h
    · exact (left.within_of_mem_parts h hf relation.closes).mono
        ⟨[], right.fragments ++ [g], by simp [Condition.fragments]⟩ (List.subset_append_left ..)
    · exact (right.within_of_mem_parts h relation.opens hg).mono
        ⟨f :: left.fragments, [], by simp [Condition.fragments]⟩ (List.subset_append_right ..)

/-- What controls a statement is enclosed in parentheses. -/
theorem Statement.Controls.enclosed {t body : Statement} {k : String} {c : Condition}
    (h : t.Controls k c body) (names : Names) : ∃ f g, Opens f ∧ Closes g ∧
      f :: (c.fragments ++ [g]) <:+: t.fragments names := by
  obtain ⟨head, hhead, hfragments⟩ := h.fragments names
  exact ⟨head, .conditionEnd, ⟨[.word k], .mark "(", by decide, hhead⟩,
    ⟨.mark ")", by decide, [], rfl⟩, [], body.fragments names, by simp [hfragments]⟩

/-- The expressions of a statement stand in its code, in front of something that closes. -/
theorem Statement.within_of_mem_expressions (names : Names) (t : Statement) {part : Expression}
    (h : part ∈ t.expressions) {g : Fragment} (hg : Closes g) :
    Within part (t.fragments names ++ [g]) t.uses := by
  have hassign : Opens .assign := ⟨[], .mark "=", by decide, rfl⟩
  cases t with
  | assign x value =>
    exact (value.within_of_mem_parts h hassign hg).mono
      ⟨[.name x], [], by simp [Statement.fragments]⟩ (List.subset_cons_self ..)
  | assignElement x index value =>
    rcases List.mem_append.mp h with h | h
    · have hindex := index.within_of_mem_parts h (f := .mark .leftBracket)
        (g := .mark .rightBracket) (opens_mark (by decide)) (closes_mark (by decide))
      exact hindex.mono ⟨[.name x], .assign :: (value.fragments ++ [g]),
        by simp [Statement.fragments]⟩ (by simp [Statement.uses])
    · exact (value.within_of_mem_parts h hassign hg).mono
        ⟨.name x :: .mark .leftBracket :: (index.fragments ++ [.mark .rightBracket]), [],
          by simp [Statement.fragments]⟩ (by simp [Statement.uses])
  | ifThen c body =>
    obtain ⟨f, g', hf, hg', hfs⟩ := (Controls.ifThen c body).enclosed names
    exact (c.within_of_mem_parts h hf hg').mono (hfs.trans (List.prefix_append ..).isInfix)
      (List.subset_append_left ..)
  | whileDo c body =>
    obtain ⟨f, g', hf, hg', hfs⟩ := (Controls.whileDo c body).enclosed names
    exact (c.within_of_mem_parts h hf hg').mono (hfs.trans (List.prefix_append ..).isInfix)
      (List.subset_append_left ..)
  | _ => cases h

end Tree

/-! ### The output -/

/-- The text stands in the output, between tokens that stand in front of an expression and behind
one. -/
def Source.Encloses (source : Source) (text : String) : Prop :=
  ∃ before, ∃ t ∈ Tree.opening, ∃ after, ∃ u ∈ Tree.closing,
    C.tokens (compile source).text = before ++ t :: (C.tokens text ++ u :: after)

/-- Enclosed code of a tree keeps its tokens in the output. -/
theorem Source.Reads.encloses {source : Source} {p : Tree.Program} (h : source.Reads p.tokens)
    (haccepted : source.Accepted) {gs : List Fragment} (hgs : Tree.Enclosed p.fragments gs) :
    source.Encloses (codeOf gs) ∧ C.tokens (codeOf gs) = cTokens gs ∧ ∀ f ∈ gs, f.WellFormed := by
  obtain ⟨before, f, after, g, hfragments, ⟨ts, t, ht, hf⟩, u, hu, us, hg⟩ := hgs
  have hsplit : Fragment.preamble :: (p.fragments ++ [.trailer]) =
      (.preamble :: (before ++ [f])) ++ (gs ++ g :: (after ++ [.trailer])) := by
    simp [hfragments]
  have hjoined := h.joined
  have houtput := h.tokens_compile haccepted
  rw [hsplit] at hjoined houtput
  obtain ⟨e, -, hjoined⟩ := hjoined.of_append
  obtain ⟨e', hjoined, -⟩ := hjoined.of_append
  refine ⟨⟨cTokens (.preamble :: before) ++ ts, t, ht, us ++ cTokens (after ++ [.trailer]), u, hu,
    ?_⟩, hjoined.tokens_codeOf, hjoined.wellFormed⟩
  rw [hjoined.tokens_codeOf, houtput]
  simp [hf, hg]

/-- **The code of expressions and conditions has their values.** In the output for an accepted text,
the code of an expression stands between tokens that bind more loosely than its operators. C reads
it in one way, and whatever its names and the elements of its arrays stand for, what is read has the
value of the expression. The same holds of conditions, whose code has the value 1 if they hold, and
0 if not. -/
theorem evaluation_of_code (source : Source)
    (h : ((compile source).deliver .unlimited).failure? = none) :
    ∀ p : Tree.Program, source.Reads p.tokens → ∀ names t, (names, t) ∈ p.statements →
      (∀ e ∈ t.expressions, source.Encloses (codeOf e.fragments) ∧
        C.Evaluates (C.tokens (codeOf e.fragments)) fun env => e.value env) ∧
      ∀ k c body, Tree.Statement.Controls t k c body → source.Encloses (codeOf c.fragments) ∧
        C.Evaluates (C.tokens (codeOf c.fragments)) fun env => C.truth (c.Holds env) := by
  intro p hp names t ht
  have hfree := p.freeOfKeywords (hp.finished h).1 ht
  obtain ⟨before, closing, after, hfragments, hclosing⟩ := p.standsIn ht
  have hstatement : t.fragments names ++ [closing] <:+: p.fragments :=
    ⟨before, after, by simp [hfragments]⟩
  refine ⟨fun e he => ?_, fun k c body hcontrols => ?_⟩
  · obtain ⟨henclosed, huses⟩ := t.within_of_mem_expressions names he hclosing.closes
    obtain ⟨hencloses, htokens, hwellFormed⟩ := hp.encloses h (henclosed.mono hstatement)
    have hreads := e.reads fun o ho => hfree o (huses ho)
    exact ⟨hencloses, htokens.symm ▸ (hreads.loosen (by decide)).evaluates fun env =>
      e.value_toC env hwellFormed⟩
  · obtain ⟨f, g, hf, hg, hfs⟩ := hcontrols.enclosed names
    have henclosed : Tree.Enclosed (f :: (c.fragments ++ [g])) c.fragments :=
      ⟨[], f, [], g, rfl, hf, hg⟩
    have hinfix := (hfs.trans (List.prefix_append _ [closing]).isInfix).trans hstatement
    obtain ⟨hencloses, htokens, hwellFormed⟩ := hp.encloses h (henclosed.mono hinfix)
    have hreads := c.reads fun o ho => hfree o (by simp [hcontrols.uses, ho])
    exact ⟨hencloses, htokens.symm ▸ hreads.evaluates fun env => c.value_toC env hwellFormed⟩

/-- A sign in front of a quotient, and a number that may be negative and odd. -/
theorem evaluation_of_code_signed :
    let source : Source := ⟨"signed.pl0", "var x; while odd x do x := -x / 2."⟩
    ((compile source).deliver .unlimited).failure? = none ∧
      (source.Encloses "-x/2" ∧
        C.Evaluates (C.tokens "-x/2") fun env => -(env.name "x").tdiv 2) ∧
      source.Encloses "(x)&1" ∧
        C.Evaluates (C.tokens "(x)&1") fun env => C.truth (env.name "x" % 2 = 1) := by
  let source : Source := ⟨"signed.pl0", "var x; while odd x do x := -x / 2."⟩
  let half : Tree.Expression :=
    .mk (some .minus) (.mk (.name "x") (.next .dividedBy (.number ⟨2, "2"⟩) .done)) .done
  let c : Tree.Condition := .odd (.mk none (.mk (.name "x") .done) .done)
  let p : Tree.Program := ⟨.mk [] [⟨"x", none⟩] .done (.whileDo c (.assign "x" half))⟩
  have haccepted : ((compile source).deliver .unlimited).failure? = none := by decide +kernel
  have hp : source.Reads p.tokens := Source.reads_iff.mpr (by decide +kernel)
  have hloop := evaluation_of_code source haccepted p hp _ _ (List.mem_cons_self ..)
  have hbody := evaluation_of_code source haccepted p hp _ _
    (List.mem_cons_of_mem _ (List.mem_cons_self ..))
  exact ⟨haccepted, hbody.1 half (List.mem_cons_self ..), hloop.2 "while" c _ (.whileDo c _)⟩

end PlZero
