import PlZero.Proofs.Progress

/-!
# Runs along a tree

When the tokens of a tree are next, and behind them a token with which the tree cannot go on,
the compiler realizes the tree: it takes these tokens, writes the fragments of the tree, and
does to the scope what the tree asks of it. The proof follows the tree; a nonterminal looks at
one token only, so all that has to be known of the rest of the input is its first token
(`looseness`, `endsStatement`).
-/

namespace PlZero.Tree

open Goal

/-! ### What may follow a tree -/

/-- How loosely a token binds an expression to what follows: an index most tightly, then the
operators between factors, then those between terms. -/
def looseness : Token → Nat
  | .mark .leftBracket => 0
  | .mark .star | .mark .slash => 1
  | .mark .plus | .mark .minus => 2
  | _ => 3

/-- A token behind a statement. -/
def endsStatement : Token → Bool
  | .mark .semicolon | .keyword .end_ | .mark .dot => true
  | _ => false

/-- A token that begins a factor. -/
def beginsFactor : Token → Bool
  | .name _ | .number _ _ | .mark .leftParen => true
  | _ => false

theorem looseness_of_endsStatement {t : Token} (h : endsStatement t) : 2 < looseness t := by
  unfold endsStatement at h
  split at h <;> first | decide | cases h

theorem Factor.exists_tokens (f : Factor) : ∃ t ts, f.tokens = t :: ts ∧ beginsFactor t := by
  cases f <;> exact ⟨_, _, rfl, rfl⟩

theorem Term.exists_tokens (t : Term) : ∃ u us, t.tokens = u :: us ∧ beginsFactor u := by
  obtain ⟨first, more⟩ := t
  obtain ⟨u, us, hus, hu⟩ := first.exists_tokens
  exact ⟨u, us ++ more.tokens, by simp [Term.tokens, hus], hu⟩

theorem Expression.exists_tokens (e : Expression) :
    ∃ u us, e.tokens = u :: us ∧ u ≠ word .odd := by
  obtain ⟨sign, first, more⟩ := e
  obtain ⟨u, us, hus, hu⟩ := first.exists_tokens
  cases sign with
  | none =>
    refine ⟨u, us ++ more.tokens, by simp [Expression.tokens, signTokens, hus], ?_⟩
    rintro rfl
    exact absurd hu (by decide)
  | some sign => exact ⟨.mark sign.mark, first.tokens ++ more.tokens, rfl, by simp⟩

/-! ### What a token lets a nonterminal stand for -/

section Expansion

variable {t : Token}

theorem expansion_index (x : String) (h : 0 < looseness t) :
    (Nonterminal.index x).expansion t = .ok [perform (.checkPlain x)] := by
  simp only [Nonterminal.expansion]
  split
  · exact absurd h (by decide)
  · rfl

theorem expansion_moreFactors (h : 1 < looseness t) :
    Nonterminal.moreFactors.expansion t = .ok [] := by
  simp only [Nonterminal.expansion]
  split <;> first | rfl | exact absurd h (by decide)

theorem expansion_moreTerms (h : 2 < looseness t) : Nonterminal.moreTerms.expansion t = .ok [] := by
  simp only [Nonterminal.expansion]
  split <;> first | rfl | exact absurd h (by decide)

theorem expansion_expression (h : beginsFactor t) :
    Nonterminal.expression.expansion t = .ok [expand .term, expand .moreTerms] := by
  simp only [Nonterminal.expansion]
  split <;> first | rfl | exact absurd h (by decide)

theorem expansion_condition (h : t ≠ word .odd) : Nonterminal.condition.expansion t =
    .ok [expand .expression, fill .relation, expand .expression] := by
  simp only [Nonterminal.expansion]

theorem statementGoals_of_endsStatement (h : endsStatement t) :
    Nonterminal.statementGoals t = [] := by
  unfold endsStatement at h
  split at h <;> first | rfl | cases h

theorem statement_print (form : Form) :
    Nonterminal.statement.expansion (word form.printKeyword) =
      .ok [Goal.word form.printKeyword, fill (.printed form)] := by
  cases form <;> rfl

theorem statement_read (form : Form) :
    Nonterminal.statement.expansion (word (readKeyword form)) =
      .ok [Goal.word (readKeyword form), expand .optionalInto, fill (.stored form)] := by
  cases form <;> rfl

end Expansion

variable {s : State} {scope : Scope} {r : List (Except LexicalError Token)}

theorem Terms.startsWith (more : Terms) (hr : StartsWith (2 < looseness ·) r) :
    StartsWith (1 < looseness ·) (more.tokens.map .ok ++ r) := by
  cases more with
  | done => exact hr.mono fun t ht => Nat.lt_of_succ_lt ht
  | next sign term more => exact startsWith_cons _ r (by cases sign <;> decide)

theorem Factors.startsWith (more : Factors) (hr : StartsWith (1 < looseness ·) r) :
    StartsWith (0 < looseness ·) (more.tokens.map .ok ++ r) := by
  cases more with
  | done => exact hr.mono fun t ht => Nat.lt_of_succ_lt ht
  | next scaling factor more => exact startsWith_cons _ r (by cases scaling <;> decide)

/-- Behind tokens, the input goes on if it does behind all of them. -/
theorem startsWith_any {p : Token → Prop} (us : List Token) (hr : StartsWith p r) :
    StartsWith (fun _ => True) (us.map .ok ++ r) := by
  cases us with
  | nil => exact hr.mono fun _ _ => trivial
  | cons u us => exact startsWith_cons us r trivial

/-! ### Realizing uses of names -/

section Uses

variable {g : Goal} {gs : List Goal} {ts us : List Token} {fs fs' : List Fragment}
  {result : Except StaticError Scope} {uses uses' : List Occurrence} {p : Token → Prop}

/-- Goals that only use names are realized one after the other in the same scope. -/
theorem realizes_uses (h : s.upcoming = (ts ++ us).map .ok ++ r)
    (h₁ : Realizes [g] s ts fs (useAll scope uses))
    (h₂ : ∀ s', s'.upcoming = us.map .ok ++ r → s'.scope = scope →
      Realizes gs s' us fs' (useAll scope uses')) :
    Realizes (g :: gs) s (ts ++ us) (fs ++ fs') (useAll scope (uses ++ uses')) := by
  rw [useAll_append]
  refine Realizes.cons ts fs h h₁ fun s' hup _ hs' => ?_
  have hscope := scope_of_useAll hs'
  rw [hscope]
  exact h₂ s' hup hscope

/-- A fixed token in front. -/
theorem realizes_written {t : Fixed} {f : Fragment} (hscope : s.scope = scope)
    (h : s.upcoming = (t.token :: us).map .ok ++ r) (hr : StartsWith p r)
    (h₂ : ∀ s', s'.upcoming = us.map .ok ++ r → s'.scope = scope → s'.depth = s.depth →
      Realizes gs s' us fs' result) :
    Realizes (fill (.written t f) :: gs) s (t.token :: us) (f :: fs') result := by
  obtain ⟨u, rest, hu, -⟩ := startsWith_any us hr
  have hup : s.upcoming = .ok t.token :: .ok u :: rest := by rw [h, ← hu]; rfl
  refine Realizes.cons [t.token] [f] (k := fun _ => result) h
    (Realizes.written hup f) fun s' hup' hdepth hs' => ?_
  exact h₂ s' hup' ((Except.ok.inj hs').symm.trans hscope) hdepth

/-- A fixed token in front for which nothing is written. -/
theorem realizes_skipped {t : Fixed} (hscope : s.scope = scope)
    (h : s.upcoming = (t.token :: us).map .ok ++ r) (hr : StartsWith p r)
    (h₂ : ∀ s', s'.upcoming = us.map .ok ++ r → s'.scope = scope → s'.depth = s.depth →
      Realizes gs s' us fs' result) :
    Realizes (fill (.skipped t) :: gs) s (t.token :: us) fs' result := by
  obtain ⟨u, rest, hu, -⟩ := startsWith_any us hr
  have hup : s.upcoming = .ok t.token :: .ok u :: rest := by rw [h, ← hu]; rfl
  refine Realizes.cons [t.token] [] (k := fun _ => result) h
    (Realizes.skipped hup) fun s' hup' hdepth hs' => ?_
  exact h₂ s' hup' ((Except.ok.inj hs').symm.trans hscope) hdepth

/-- What follows a name and its index is realized where the name has the right shape. -/
theorem realizes_shape {check : Except StaticError Unit}
    (h₁ : Realizes [g] s ts fs (check >>= fun _ => useAll scope uses))
    (h : s.upcoming = (ts ++ us).map .ok ++ r)
    (h₂ : ∀ s', s'.upcoming = us.map .ok ++ r → s'.scope = scope →
      Realizes gs s' us fs' (useAll scope uses')) :
    Realizes (g :: gs) s (ts ++ us) (fs ++ fs')
      (check >>= fun _ => useAll scope (uses ++ uses')) := by
  cases check with
  | error e =>
    exact Realizes.cons ts fs (k := fun scope => useAll scope uses') h h₁
      fun _ _ _ hs' => by cases hs'
  | ok _ => exact realizes_uses h h₁ h₂

/-- A single slot that does with its token all that is asked of the scope. -/
theorem realizes_slot {slot : Slot} {t : Token} {f : Fragment} (uses : List Occurrence)
    (hscope : s.scope = scope) (h : s.upcoming = .ok t :: r) (hr : StartsWith p r)
    (hfill : slot.fill s.depth scope t =
      orStatic ((useAll scope uses).map fun scope => (scope, some f))) :
    Realizes [fill slot] s [t] [f] (useAll scope uses) := by
  obtain ⟨u, rest, rfl, -⟩ := hr
  exact Realizes.fill (f := some f) h (by rw [hscope]; exact hfill)

/-- A name in front, whose shape is decided by what follows. -/
theorem realizes_name {slot : Slot} {x : String} {use : Use} {shape : Shape}
    (hslot : ∀ depth, slot.fill depth scope (.name x) =
      orStatic ((scope.resolve x use).map fun _ => (scope, some (.name x))))
    (hscope : s.scope = scope) (h : s.upcoming = (.name x :: us).map .ok ++ r)
    (hr : StartsWith p r)
    (h₂ : ∀ s', s'.upcoming = us.map .ok ++ r → s'.scope = scope →
      Realizes gs s' us fs' (shape.check scope x >>= fun _ => useAll scope uses)) :
    Realizes (fill slot :: gs) s (.name x :: us) (.name x :: fs')
      (useAll scope (⟨x, use, shape⟩ :: uses)) := by
  obtain ⟨u, rest, hu, -⟩ := startsWith_any us hr
  have hup : s.upcoming = .ok (.name x) :: .ok u :: rest := by rw [h, ← hu]; rfl
  have hresult : useAll scope (⟨x, use, shape⟩ :: uses) =
      ((scope.resolve x use).map fun _ => scope) >>= fun scope' =>
        shape.check scope' x >>= fun _ => useAll scope' uses := by
    rw [useAll_cons, Occurrence.check]
    cases scope.resolve x use <;> rfl
  rw [hresult]
  refine Realizes.cons [.name x] [.name x] h
    (Realizes.fill (f := some (.name x)) hup ?_) fun s' hup' _ hs' => ?_
  · rw [hscope, hslot]
    cases scope.resolve x use <;> rfl
  · have hs : s'.scope = scope := by
      cases hres : scope.resolve x use with
      | error e => rw [hres] at hs'; cases hs'
      | ok d => rw [hres] at hs'; exact (Except.ok.inj hs').symm
    rw [hs]
    exact h₂ s' hup' hs

theorem fill_operand (depth : Nat) (scope : Scope) (x : String) :
    Slot.operand.fill depth scope (.name x) =
      orStatic ((scope.resolve x .operand).map fun _ => (scope, some (.name x))) := by
  simp only [Slot.fill]
  cases scope.resolve x .operand <;> rfl

theorem fill_target (depth : Nat) (scope : Scope) (x : String) :
    Slot.target.fill depth scope (.name x) =
      orStatic ((scope.resolve x .target).map fun _ => (scope, some (.name x))) := by
  simp only [Slot.fill]
  cases scope.resolve x .target <;> rfl

/-- A name without an index has to be plain. -/
theorem realizes_noIndex (x : String) (hscope : s.scope = scope) (h : s.upcoming = r)
    (hr : StartsWith (0 < looseness ·) r) :
    Realizes [expand (.index x)] s [] []
      (Shape.plain.check scope x >>= fun _ => useAll scope []) := by
  obtain ⟨t, rest, rfl, ht⟩ := hr
  have hcheck := Realizes.check (s := s) (a := .checkPlain x) (e := scope.checkPlain x)
    (by rw [Action.perform, hscope]; cases scope.checkPlain x <;> rfl)
  have heq : (Shape.plain.check scope x >>= fun _ => useAll scope []) =
      (scope.checkPlain x).map fun _ => s.scope := by
    rw [Shape.check, hscope]
    cases scope.checkPlain x <;> rfl
  rw [heq]
  exact Realizes.expand h (expansion_index x ht) hcheck

/-- A name with an index has to be an array. -/
theorem realizes_index {index : Expression} (x : String) (hscope : s.scope = scope)
    (h : s.upcoming =
      (.mark .leftBracket :: (index.tokens ++ [.mark .rightBracket])).map .ok ++ r)
    (hr : StartsWith p r)
    (hindex : ∀ s', s'.upcoming = index.tokens.map .ok ++ ([.mark .rightBracket].map .ok ++ r) →
      s'.scope = scope →
      Realizes [expand .expression] s' index.tokens index.fragments (useAll scope index.uses)) :
    Realizes [expand (.index x)] s (.mark .leftBracket :: (index.tokens ++ [.mark .rightBracket]))
      (.mark .leftBracket :: (index.fragments ++ [.mark .rightBracket]))
      (Shape.array.check scope x >>= fun _ => useAll scope index.uses) := by
  refine Realizes.expand h rfl ?_
  have hcheck := Realizes.check (s := s) (a := .checkArray x) (e := scope.arraySize x)
    (by rw [Action.perform, hscope]; cases scope.arraySize x <;> rfl)
  have heq : (Shape.array.check scope x >>= fun _ => useAll scope index.uses) =
      ((scope.arraySize x).map fun _ => s.scope) >>= fun scope => useAll scope index.uses := by
    rw [Shape.check, hscope]
    cases scope.arraySize x <;> rfl
  rw [heq]
  refine Realizes.cons [] [] h hcheck fun s' h' _ hs' => ?_
  have hscope' : s'.scope = scope := by
    cases hsize : scope.arraySize x with
    | error e => rw [hsize] at hs'; cases hs'
    | ok n => rw [hsize] at hs'; exact (Except.ok.inj hs').symm.trans hscope
  rw [hscope', ← List.append_nil index.uses]
  exact realizes_written (t := .mark .leftBracket) hscope' h' hr fun s₂ h₂ hscope₂ _ =>
    realizes_uses h₂ (hindex s₂ (by simpa using h₂) hscope₂) fun s₃ h₃ hscope₃ =>
      realizes_written (t := .mark .rightBracket) hscope₃ h₃ hr fun s₄ _ hscope₄ _ =>
        hscope₄ ▸ Realizes.nil s₄

end Uses

/-! ### Expressions -/

mutual

theorem Expression.realizes (e : Expression) {s : State} {r : List (Except LexicalError Token)}
    (hscope : s.scope = scope) (h : s.upcoming = e.tokens.map .ok ++ r)
    (hr : StartsWith (2 < looseness ·) r) :
    Realizes [expand .expression] s e.tokens e.fragments (useAll scope e.uses) := by
  obtain ⟨sign, first, more⟩ := e
  have operands : ∀ s', s'.upcoming = (first.tokens ++ more.tokens).map .ok ++ r →
      s'.scope = scope → Realizes [expand .term, expand .moreTerms] s'
        (first.tokens ++ more.tokens) (first.fragments ++ more.fragments)
        (useAll scope (first.uses ++ more.uses)) := fun s' h' hscope' =>
    realizes_uses h' (first.realizes hscope' (by simpa using h') (more.startsWith hr))
      fun s'' h'' hscope'' => more.realizes hscope'' h'' hr
  cases sign with
  | none =>
    obtain ⟨u, us, hus, hu⟩ := first.exists_tokens
    have hup : s.upcoming = .ok u :: ((us ++ more.tokens).map .ok ++ r) := by
      simp [h, Expression.tokens, signTokens, hus]
    exact Realizes.expand hup (expansion_expression hu) (operands s h hscope)
  | some sign =>
    have hgoals : Realizes [sameMark sign.mark, expand .term, expand .moreTerms] s
        (.mark sign.mark :: (first.tokens ++ more.tokens))
        (.mark sign.mark :: (first.fragments ++ more.fragments))
        (useAll scope (first.uses ++ more.uses)) :=
      realizes_written (t := .mark sign.mark) hscope h hr fun s' h' hscope' _ =>
        operands s' h' hscope'
    exact Realizes.expand h (by cases sign <;> rfl) hgoals

theorem Terms.realizes (more : Terms) {s : State} {r : List (Except LexicalError Token)}
    (hscope : s.scope = scope) (h : s.upcoming = more.tokens.map .ok ++ r)
    (hr : StartsWith (2 < looseness ·) r) :
    Realizes [expand .moreTerms] s more.tokens more.fragments (useAll scope more.uses) := by
  cases more with
  | done =>
    obtain ⟨t, rest, rfl, ht⟩ := hr
    exact Realizes.expand h (expansion_moreTerms ht) (hscope ▸ Realizes.nil s)
  | next sign term more =>
    have hgoals : Realizes [sameMark sign.mark, expand .term, expand .moreTerms] s
        (.mark sign.mark :: (term.tokens ++ more.tokens))
        (.mark sign.mark :: (term.fragments ++ more.fragments))
        (useAll scope (term.uses ++ more.uses)) :=
      realizes_written (t := .mark sign.mark) hscope h hr fun s' h' hscope' _ =>
        realizes_uses h' (term.realizes hscope' (by simpa using h') (more.startsWith hr))
          fun s'' h'' hscope'' => more.realizes hscope'' h'' hr
    exact Realizes.expand h (by cases sign <;> rfl) hgoals

theorem Term.realizes (t : Term) {s : State} {r : List (Except LexicalError Token)}
    (hscope : s.scope = scope) (h : s.upcoming = t.tokens.map .ok ++ r)
    (hr : StartsWith (1 < looseness ·) r) :
    Realizes [expand .term] s t.tokens t.fragments (useAll scope t.uses) := by
  obtain ⟨first, more⟩ := t
  obtain ⟨u, us, hus, -⟩ := first.exists_tokens
  have hup : s.upcoming = .ok u :: ((us ++ more.tokens).map .ok ++ r) := by
    simp [h, Term.tokens, hus]
  refine Realizes.expand hup rfl ?_
  exact realizes_uses h
    (first.realizes hscope (by simpa [Term.tokens] using h) (more.startsWith hr))
    fun s' h' hscope' => more.realizes hscope' h' hr

theorem Factors.realizes (more : Factors) {s : State} {r : List (Except LexicalError Token)}
    (hscope : s.scope = scope) (h : s.upcoming = more.tokens.map .ok ++ r)
    (hr : StartsWith (1 < looseness ·) r) :
    Realizes [expand .moreFactors] s more.tokens more.fragments (useAll scope more.uses) := by
  cases more with
  | done =>
    obtain ⟨t, rest, rfl, ht⟩ := hr
    exact Realizes.expand h (expansion_moreFactors ht) (hscope ▸ Realizes.nil s)
  | next scaling factor more =>
    have hgoals : Realizes [sameMark scaling.mark, expand .factor, expand .moreFactors] s
        (.mark scaling.mark :: (factor.tokens ++ more.tokens))
        (.mark scaling.mark :: (factor.fragments ++ more.fragments))
        (useAll scope (factor.uses ++ more.uses)) :=
      realizes_written (t := .mark scaling.mark) hscope h hr fun s' h' hscope' _ =>
        realizes_uses h' (factor.realizes hscope' (by simpa using h') (more.startsWith hr))
          fun s'' h'' hscope'' => more.realizes hscope'' h'' hr
    exact Realizes.expand h (by cases scaling <;> rfl) hgoals

theorem Factor.realizes (f : Factor) {s : State} {r : List (Except LexicalError Token)}
    (hscope : s.scope = scope) (h : s.upcoming = f.tokens.map .ok ++ r)
    (hr : StartsWith (0 < looseness ·) r) :
    Realizes [expand .factor] s f.tokens f.fragments (useAll scope f.uses) := by
  cases f with
  | name x =>
    refine Realizes.expand h rfl ?_
    exact realizes_name (fill_operand · scope x) hscope h hr fun s' h' hscope' =>
      realizes_noIndex x hscope' h' hr
  | element x index =>
    refine Realizes.expand h rfl ?_
    exact realizes_name (fill_operand · scope x) hscope h hr fun s' h' hscope' =>
      realizes_index x hscope' h' hr fun s'' h'' hscope'' =>
        index.realizes hscope'' h'' (startsWith_cons [] r (by decide))
  | number n =>
    refine Realizes.expand h rfl ?_
    exact realizes_slot (t := n.token) (f := .number n.value) [] hscope h hr rfl
  | group inner =>
    refine Realizes.expand h rfl ?_
    refine realizes_written (t := .mark .leftParen) hscope h hr fun s' h' hscope' _ => ?_
    have hclose : StartsWith (2 < looseness ·) ([Token.mark .rightParen].map .ok ++ r) :=
      startsWith_cons [] r (by decide)
    rw [Factor.uses, ← List.append_nil inner.uses]
    exact realizes_uses h' (inner.realizes hscope' (by simpa using h') hclose)
      fun s'' h'' hscope'' => realizes_written (t := .mark .rightParen) hscope'' h'' hr
        fun s₃ _ hscope₃ _ => hscope₃ ▸ Realizes.nil s₃

end

/-! ### Statements -/

theorem Condition.realizes (c : Condition) {s : State} {r : List (Except LexicalError Token)}
    (hscope : s.scope = scope) (h : s.upcoming = c.tokens.map .ok ++ r)
    (hr : StartsWith (2 < looseness ·) r) :
    Realizes [expand .condition] s c.tokens c.fragments (useAll scope c.uses) := by
  cases c with
  | odd e =>
    refine Realizes.expand h rfl ?_
    refine realizes_written (t := .word .odd) hscope h hr fun s' h' hscope' _ => ?_
    have hwrite : ∀ s'', s''.scope = scope →
        Realizes [write .oddEnd] s'' [] [.oddEnd] (useAll scope []) :=
      fun s'' hscope'' => hscope'' ▸ Realizes.write s'' .oddEnd
    rw [Condition.uses, ← List.append_nil e.uses, ← List.append_nil e.tokens]
    exact realizes_uses (r := r) (by simpa using h') (e.realizes hscope' h' hr)
      fun s'' _ hscope'' => hwrite s'' hscope''
  | compare left relation right =>
    obtain ⟨u, us, hus, hu⟩ := left.exists_tokens
    have hup : s.upcoming = .ok u ::
        ((us ++ .mark relation.mark :: right.tokens).map .ok ++ r) := by
      simp [h, Condition.tokens, hus]
    have hslot : ∀ depth, Slot.relation.fill depth scope (.mark relation.mark) =
        orStatic ((useAll scope []).map fun scope => (scope, some relation.fragment)) := by
      intro depth
      cases relation <;> rfl
    refine Realizes.expand hup (expansion_condition hu) ?_
    refine realizes_uses h (left.realizes hscope (by simpa [Condition.tokens] using h)
      (startsWith_cons _ r (by cases relation <;> decide))) fun s' h' hscope' => ?_
    have hrelation := realizes_slot [] hscope' h' (startsWith_any right.tokens hr) (hslot s'.depth)
    exact realizes_uses h' hrelation
      fun s'' h'' hscope'' => right.realizes hscope'' h'' hr

theorem fill_callee (depth : Nat) (scope : Scope) (p : String) :
    Slot.callee.fill depth scope (.name p) =
      orStatic ((useAll scope [⟨p, .callee, .called⟩]).map
        fun scope => (scope, some (.call p))) := by
  simp only [Slot.fill, useAll_cons, Occurrence.check]
  cases scope.resolve p .callee <;> rfl

theorem fill_printed (form : Form) (depth : Nat) (scope : Scope) (x : String) :
    (Slot.printed form).fill depth scope (.name x) =
      orStatic ((useAll scope [⟨x, .operand, .plain⟩]).map fun scope =>
        (scope, some (.print form (.name x)))) := by
  simp only [Slot.fill, useAll_cons, Occurrence.check, Shape.check]
  cases scope.resolve x .operand with
  | error e => rfl
  | ok d => cases scope.checkPlain x <;> rfl

theorem fill_stored (form : Form) (depth : Nat) (scope : Scope) (x : String) :
    (Slot.stored form).fill depth scope (.name x) =
      orStatic ((useAll scope [⟨x, .target, .plain⟩]).map fun scope =>
        (scope, some (.read form x))) := by
  simp only [Slot.fill, useAll_cons, Occurrence.check, Shape.check]
  cases scope.resolve x .target with
  | error e => rfl
  | ok d => cases scope.checkPlain x <;> rfl

theorem size_of_arraySize {scope : Scope} {x : String} {n : Nat} (h : scope.arraySize x = .ok n) :
    Names.size scope.lookup x = n := by
  simp only [Scope.arraySize] at h
  split at h
  · cases h
  · next d hd =>
    split at h
    · cases h
    · next m hm =>
      cases h
      simp [Names.size, hd, hm]

theorem fill_printedText (depth : Nat) (scope : Scope) (x : String) :
    Slot.printedText.fill depth scope (.name x) =
      orStatic ((useAll scope [⟨x, .target, .array⟩]).map fun scope' =>
        (scope', some (.printArray x (Names.size scope.lookup x)))) := by
  simp only [Slot.fill, useAll_cons, Occurrence.check, Shape.check]
  cases scope.resolve x .target with
  | error e => rfl
  | ok d =>
    cases hsize : scope.arraySize x with
    | error e => rfl
    | ok n =>
      rw [size_of_arraySize hsize]
      rfl

theorem Statements.startsWith (more : Statements) (r : List (Except LexicalError Token)) :
    StartsWith (endsStatement ·) (more.tokens.map .ok ++ r) := by
  cases more <;> exact startsWith_cons _ r rfl

/-- The goal that skips an `into`. -/
theorem realizes_into (hasInto : Bool) {t : Token} (ht : t ≠ word .into) (hscope : s.scope = scope)
    (h : s.upcoming = (intoTokens hasInto).map .ok ++ .ok t :: r) :
    Realizes [expand .optionalInto] s (intoTokens hasInto) [] (useAll scope []) := by
  cases hasInto with
  | true =>
    refine Realizes.expand h rfl ?_
    exact hscope ▸ Realizes.skipped (t := .word .into) h
  | false =>
    have hexp : Nonterminal.optionalInto.expansion t = .ok [] := by
      simp only [Nonterminal.expansion]
    exact Realizes.expand h hexp (hscope ▸ Realizes.nil s)

mutual

theorem Statement.realizes (t : Statement) {s : State} {r : List (Except LexicalError Token)}
    (hscope : s.scope = scope) (h : s.upcoming = t.tokens.map .ok ++ r)
    (hr : StartsWith (endsStatement ·) r) :
    Realizes [expand .statement] s t.tokens (t.fragments scope.lookup) (useAll scope t.uses) := by
  have hloose := hr.mono fun _ => looseness_of_endsStatement
  cases t with
  | empty =>
    obtain ⟨t, rest, rfl, ht⟩ := hr
    refine Realizes.expand h (congrArg Except.ok (statementGoals_of_endsStatement ht)) ?_
    exact hscope ▸ Realizes.nil s
  | assign x value =>
    refine Realizes.expand h rfl ?_
    refine realizes_name (fill_target · scope x) hscope h hr fun s' h' hscope' => ?_
    have hplain := realizes_noIndex x hscope' h' (startsWith_cons _ r (by decide))
    refine realizes_shape hplain h'
      fun s'' h'' hscope'' => ?_
    exact realizes_written (t := .mark .becomes) hscope'' h'' hr fun s₃ h₃ hscope₃ _ =>
      value.realizes hscope₃ h₃ hloose
  | assignElement x index value =>
    refine Realizes.expand h rfl ?_
    have htokens : (Statement.assignElement x index value).tokens = .name x ::
        ((.mark .leftBracket :: (index.tokens ++ [.mark .rightBracket])) ++
          .mark .becomes :: value.tokens) := by
      simp [Statement.tokens]
    have hfragments : (Statement.assignElement x index value).fragments scope.lookup = .name x ::
        ((.mark .leftBracket :: (index.fragments ++ [.mark .rightBracket])) ++
          .assign :: value.fragments) := by
      simp [Statement.fragments]
    rw [htokens] at h ⊢
    rw [hfragments]
    refine realizes_name (fill_target · scope x) hscope h hr fun s' h' hscope' => ?_
    refine realizes_shape (realizes_index (p := fun _ => True) x hscope' (by simpa using h')
      (startsWith_cons _ r trivial) fun s'' h'' hscope'' =>
        index.realizes hscope'' h'' (startsWith_cons [] _ (by decide))) h'
      fun s'' h'' hscope'' => ?_
    exact realizes_written (t := .mark .becomes) hscope'' h'' hr fun s₃ h₃ hscope₃ _ =>
      value.realizes hscope₃ h₃ hloose
  | call p =>
    refine Realizes.expand h rfl ?_
    exact realizes_skipped (t := .word .call) hscope h hr fun s' h' hscope' _ =>
      realizes_slot _ hscope' h' hr (fill_callee s'.depth scope p)
  | compound first more =>
    refine Realizes.expand h rfl ?_
    refine realizes_written (t := .word .begin_) hscope h hr fun s' h' hscope' _ => ?_
    exact realizes_uses h' (first.realizes hscope' (by simpa using h') (more.startsWith r))
      fun s'' h'' hscope'' => more.realizes hscope'' h'' hr
  | ifThen c body =>
    refine Realizes.expand h rfl ?_
    refine realizes_written (t := .word .if_) hscope h hr fun s' h' hscope' _ => ?_
    exact realizes_uses h'
      (c.realizes hscope' (by simpa using h') (startsWith_cons _ r (by decide)))
      fun s'' h'' hscope'' => realizes_written (t := .word .then_) hscope'' h'' hr
        fun s₃ h₃ hscope₃ _ => body.realizes hscope₃ h₃ hr
  | whileDo c body =>
    refine Realizes.expand h rfl ?_
    refine realizes_written (t := .word .while_) hscope h hr fun s' h' hscope' _ => ?_
    exact realizes_uses h'
      (c.realizes hscope' (by simpa using h') (startsWith_cons _ r (by decide)))
      fun s'' h'' hscope'' => realizes_written (t := .word .do_) hscope'' h'' hr
        fun s₃ h₃ hscope₃ _ => body.realizes hscope₃ h₃ hr
  | printName form x =>
    refine Realizes.expand h (statement_print form) ?_
    exact realizes_skipped (t := .word form.printKeyword) hscope h hr fun s' h' hscope' _ =>
      realizes_slot _ hscope' h' hr (fill_printed form s'.depth scope x)
  | printNumber form n =>
    refine Realizes.expand h (statement_print form) ?_
    exact realizes_skipped (t := .word form.printKeyword) hscope h hr fun s' h' hscope' _ =>
      realizes_slot [] hscope' h' hr rfl
  | read form hasInto x =>
    refine Realizes.expand h (statement_read form) ?_
    refine realizes_skipped (t := .word (readKeyword form)) hscope h hr fun s' h' hscope' _ => ?_
    have hinto : Realizes [expand .optionalInto] s' (intoTokens hasInto) [] (useAll scope []) :=
      realizes_into hasInto (t := .name x) (r := r) (by simp) hscope' (by simpa using h')
    exact realizes_uses h' hinto fun s'' h'' hscope'' =>
      realizes_slot _ hscope'' h'' hr (fill_stored form s''.depth scope x)
  | printArray x =>
    refine Realizes.expand h rfl ?_
    exact realizes_skipped (t := .word .writeStr) hscope h hr fun s' h' hscope' _ =>
      realizes_slot _ hscope' h' hr (fill_printedText s'.depth scope x)
  | printText content =>
    refine Realizes.expand h rfl ?_
    exact realizes_skipped (t := .word .writeStr) hscope h hr fun s' h' hscope' _ =>
      realizes_slot [] hscope' h' hr rfl

theorem Statements.realizes (more : Statements) {s : State}
    {r : List (Except LexicalError Token)} (hscope : s.scope = scope)
    (h : s.upcoming = more.tokens.map .ok ++ r) (hr : StartsWith (endsStatement ·) r) :
    Realizes [expand .moreStatements] s more.tokens (more.fragments scope.lookup)
      (useAll scope more.uses) := by
  cases more with
  | done =>
    refine Realizes.expand h rfl ?_
    exact realizes_written (t := .word .end_) hscope h hr fun s' _ hscope' _ =>
      hscope' ▸ Realizes.nil s'
  | next t more =>
    refine Realizes.expand h rfl ?_
    refine realizes_written (t := .mark .semicolon) hscope h hr fun s' h' hscope' _ => ?_
    exact realizes_uses h' (t.realizes hscope' (by simpa using h') (more.startsWith r))
      fun s'' h'' hscope'' => more.realizes hscope'' h'' hr

end

end PlZero.Tree
