import PlZero.Proofs.C.Expressions
import PlZero.Proofs.C.Templates

/-!
# The code of a statement as C reads it

A statement, with the semicolon that is put behind it, becomes a sequence of statements of C
(`Statement.reading`). Most become a single one, followed at most by empty ones. Those that do not
are what reads a number and what prints an array, and an `if` or a `while` around these
(`Statement.isSingle_iff`).
-/

namespace PlZero.Tree

open C (IsFlat IsSingle)

/-! ### Statements -/

/-- The code of the statement goes on behind a semicolon of its own. -/
def Statement.Scattered : Statement → Prop
  | .read .decimal _ _ | .printArray _ => True
  | .ifThen _ body | .whileDo _ body => body.Scattered
  | _ => False

/-- The tokens are statements of C, a first one and others, which are all empty if `single`. -/
def ReadsAs (ts : List C.Token) (single : Prop) : Prop :=
  ∃ (first : List C.Token) (rest : List (List C.Token)), ts = first ++ rest.flatten ∧
    C.Statement first ∧ (∀ r ∈ rest, C.Statement r) ∧ (single → ∀ r ∈ rest, r = [.mark ";"])

namespace ReadsAs

variable {ts : List C.Token} {single : Prop}

/-- A statement with a semicolon of its own, and the empty statement behind it. -/
theorem whole (h : C.Statement ts) : ReadsAs (ts ++ [.mark ";"]) single :=
  ⟨ts, [[.mark ";"]], rfl, h, by simp [C.Statement.empty], by simp⟩

theorem alone (h : C.Statement ts) : ReadsAs ts single :=
  ⟨ts, [], by simp, h, by simp, by simp⟩

/-- A condition controls the first of the statements behind it. -/
theorem controlled (h : ReadsAs ts single) {k : String} (hk : k = "if" ∨ k = "while")
    {test : List C.Token} (htest : C.Expression 15 test) :
    ReadsAs (.word k :: .mark "(" :: (test ++ .mark ")" :: ts)) single := by
  obtain ⟨first, rest, rfl, hfirst, hrest, hsingle⟩ := h
  refine ⟨.word k :: .mark "(" :: (test ++ .mark ")" :: first), rest, by simp, ?_, hrest, hsingle⟩
  rcases hk with rfl | rfl
  · exact .ifThen htest hfirst
  · exact .whileDo htest hfirst

theorem isSequence (h : ReadsAs ts single) : C.IsSequence ts := by
  obtain ⟨first, rest, rfl, hfirst, hrest, -⟩ := h
  exact ⟨first :: rest, by simpa using ⟨hfirst, hrest⟩, rfl⟩

theorem isSingle (h : ReadsAs ts single) (hsingle : single) : IsSingle ts := by
  obtain ⟨first, rest, rfl, hfirst, -, hempty⟩ := h
  refine ⟨first, rest.flatten, rfl, hfirst, fun v hv => ?_⟩
  obtain ⟨r, hr, hvr⟩ := List.mem_flatten.mp hv
  rw [hempty hsingle r hr] at hvr
  exact List.mem_singleton.mp hvr

end ReadsAs

theorem isSequence_append {ts us : List C.Token} (h : C.IsSequence ts) (h' : C.IsSequence us) :
    C.IsSequence (ts ++ us) := by
  obtain ⟨parts, hparts, rfl⟩ := h
  obtain ⟨parts', hparts', rfl⟩ := h'
  exact ⟨parts ++ parts', by simpa [or_imp, forall_and] using ⟨hparts, hparts'⟩, by simp⟩

/-- An assignment to a target is a statement when a semicolon ends it. -/
theorem readsAs_assign {target : List C.Token} (htarget : C.Expression 0 target)
    {value : Expression} (h : FreeOfKeywords value.uses) {single : Prop} :
    ReadsAs (target ++ .mark "=" :: (cTokens value.fragments ++ [.mark ";"])) single := by
  have hstore := C.Expression.assign (by decide : "=" ∈ C.assignmentOperators)
    (htarget.loosen (by decide)) ((value.isExpression h).loosen (by decide))
  have hall := C.Statement.expression (hstore.loosen (by decide))
  exact .alone (by simpa using hall)

mutual

/-- A statement and a semicolon are statements of C, mostly a single one. -/
theorem Statement.reading (names : Names) (t : Statement) (h : FreeOfKeywords t.uses) :
    ReadsAs (cTokens (t.fragments names) ++ [.mark ";"]) (¬ t.Scattered) := by
  match t with
  | .empty => exact .alone .empty
  | .assign x value =>
    have hx : C.Expression 0 [.word x] :=
      .word (h ⟨x, .target, .plain⟩ (by simp [Statement.uses]))
    have hvalue : FreeOfKeywords value.uses := fun o ho => h o (by simp [Statement.uses, ho])
    simpa [Statement.fragments, Fragment.tokens] using readsAs_assign hx hvalue
  | .assignElement x index value =>
    have hx : C.Expression 0 [.word x] :=
      .word (h ⟨x, .target, .array⟩ (by simp [Statement.uses]))
    have hindex := index.isExpression fun o ho => h o (by simp [Statement.uses, ho])
    have hvalue : FreeOfKeywords value.uses := fun o ho => h o (by simp [Statement.uses, ho])
    have helement := C.Expression.element hx (hindex.loosen (by decide))
    simpa [Statement.fragments, Fragment.tokens, Mark.spelling] using readsAs_assign helement hvalue
  | .call p =>
    have hp : p ∉ C.keywords := h ⟨p, .callee, .called⟩ (by simp [Statement.uses])
    simpa [Statement.fragments] using ReadsAs.whole (statement_call hp)
  | .compound first more =>
    have hfirst := (first.reading names fun o ho => h o (by simp [Statement.uses, ho])).isSequence
    obtain ⟨ts, hts, hmore⟩ := more.reading names fun o ho => h o (by simp [Statement.uses, ho])
    obtain ⟨parts, hparts, heq⟩ := isSequence_append hfirst hmore
    have hall := C.Statement.compound hparts
    rw [← heq] at hall
    simpa [Statement.fragments, Fragment.tokens, hts] using ReadsAs.whole hall
  | .ifThen c body =>
    have hc := c.isExpression fun o ho => h o (by simp [Statement.uses, ho])
    have hbody := body.reading names fun o ho => h o (by simp [Statement.uses, ho])
    have hall := hbody.controlled (.inl rfl) hc
    simpa [Statement.fragments, Fragment.tokens, Statement.Scattered] using hall
  | .whileDo c body =>
    have hc := c.isExpression fun o ho => h o (by simp [Statement.uses, ho])
    have hbody := body.reading names fun o ho => h o (by simp [Statement.uses, ho])
    have hall := hbody.controlled (.inr rfl) hc
    simpa [Statement.fragments, Fragment.tokens, Statement.Scattered] using hall
  | .printName form x =>
    have hx : x ∉ C.keywords := h ⟨x, .operand, .plain⟩ (by simp [Statement.uses])
    have hprint : C.Statement (Fragment.print form (.name x)).tokens :=
      statement_print form fun y hy => by cases hy; exact hx
    simpa [Statement.fragments] using ReadsAs.whole hprint
  | .printNumber form n =>
    have hprint : C.Statement (Fragment.print form (.number n.value)).tokens :=
      statement_print form nofun
    simpa [Statement.fragments] using ReadsAs.whole hprint
  | .read .character hasInto x =>
    have hx : x ∉ C.keywords := h ⟨x, .target, .plain⟩ (by simp [Statement.uses])
    simpa [Statement.fragments] using ReadsAs.whole (statement_readCharacter hx)
  | .read .decimal hasInto x =>
    have hx : x ∉ C.keywords := h ⟨x, .target, .plain⟩ (by simp [Statement.uses])
    refine ⟨readLineTokens, [cutLineTokens, storeTokens x, [.mark ";"]], ?_, statement_readLine,
      ?_, fun hnot => absurd trivial hnot⟩
    · simp [Statement.fragments, readDecimal_eq]
    · simp [statement_cutLine, statement_store hx, C.Statement.empty]
  | .printArray x =>
    have hx : x ∉ C.keywords := h ⟨x, .target, .array⟩ (by simp [Statement.uses])
    refine ⟨startTokens, [loopTokens x (names.size x), [.mark ";"]], ?_, statement_start, ?_,
      fun hnot => absurd trivial hnot⟩
    · simp [Statement.fragments, printArray_eq]
    · simp [statement_loop hx, C.Statement.empty]
  | .printText content =>
    simpa [Statement.fragments] using ReadsAs.whole (statement_printText content)

/-- The rest of a compound statement is a semicolon, statements of C, and a brace. -/
theorem Statements.reading (names : Names) (t : Statements) (h : FreeOfKeywords t.uses) :
    ∃ ts, cTokens (t.fragments names) = .mark ";" :: (ts ++ [.mark "\x7d"]) ∧ C.IsSequence ts := by
  match t with
  | .done => exact ⟨[], rfl, [], by simp, rfl⟩
  | .next s more =>
    have hs := (s.reading names fun o ho => h o (by simp [Statements.uses, ho])).isSequence
    obtain ⟨ts, hts, hmore⟩ := more.reading names fun o ho => h o (by simp [Statements.uses, ho])
    refine ⟨_, ?_, isSequence_append hs hmore⟩
    simp [Statements.fragments, Fragment.tokens, hts]

end

/-- The tokens go on behind their first semicolon, and open no block. -/
def GoesOn (ts : List C.Token) : Prop :=
  ∃ us vs, ts = us ++ .mark ";" :: vs ∧ (∀ u ∈ us, IsFlat u) ∧
    (∀ v ∈ vs, v = .mark ";" ∨ IsFlat v) ∧ ∃ v ∈ vs, v ≠ .mark ";"

theorem GoesOn.not_isSingle {ts : List C.Token} (h : GoesOn ts) : ¬ IsSingle ts := by
  obtain ⟨us, vs, rfl, hus, hvs, hmore⟩ := h
  exact C.not_isSingle hus hvs hmore

theorem GoesOn.controlled {ts : List C.Token} (h : GoesOn ts) {k : String}
    (hk : k = "if" ∨ k = "while") {test : List C.Token} (htest : C.Expression 15 test) :
    GoesOn (.word k :: .mark "(" :: (test ++ .mark ")" :: ts)) := by
  obtain ⟨us, vs, rfl, hus, hvs, hmore⟩ := h
  have hword : IsFlat (.word k) := by rcases hk with rfl | rfl <;> decide
  refine ⟨.word k :: .mark "(" :: (test ++ .mark ")" :: us), vs, by simp, ?_, hvs, hmore⟩
  have hopen : IsFlat (.mark "(") := by decide
  have hclose : IsFlat (.mark ")") := by decide
  simpa [or_imp, forall_and] using ⟨hword, hopen, htest.isFlat, hclose, hus⟩

theorem goesOn_readDecimal {x : String} (hx : x ∉ C.keywords) :
    GoesOn ((Fragment.read .decimal x).tokens ++ [.mark ";"]) := by
  have hrest : ∀ v ∈ cutLineTokens ++ (storeTokens x ++ [.mark ";"]),
      v = .mark ";" ∨ IsFlat v := by
    have hname : x ≠ "else" ∧ x ≠ "do" ∧ x ≠ "for" := by simpa [IsFlat] using C.isFlat_word hx
    simp [cutLineTokens, storeTokens, IsFlat, hname]
  exact ⟨readLineTokens.dropLast, cutLineTokens ++ (storeTokens x ++ [.mark ";"]), rfl, by decide,
    hrest, .word x, by simp [storeTokens], by simp⟩

theorem goesOn_printArray {x : String} (hx : x ∉ C.keywords) (size : Nat) :
    GoesOn ((Fragment.printArray x size).tokens ++ [.mark ";"]) := by
  have hloop : ∀ v ∈ loopTokens x size ++ [.mark ";"], v = .mark ";" ∨ IsFlat v := by
    have hname : x ≠ "else" ∧ x ≠ "do" ∧ x ≠ "for" := by simpa [IsFlat] using C.isFlat_word hx
    simp [loopTokens, IsFlat, hname]
  exact ⟨startTokens.dropLast, loopTokens x size ++ [.mark ";"], rfl, by decide, hloop, .word x,
    by simp [loopTokens], by simp⟩

/-- A scattered statement goes on behind its first semicolon. -/
theorem Statement.goesOn (names : Names) (t : Statement) (h : FreeOfKeywords t.uses)
    (hscattered : t.Scattered) : GoesOn (cTokens (t.fragments names) ++ [.mark ";"]) := by
  match t with
  | .ifThen c body =>
    have hc := c.isExpression fun o ho => h o (by simp [Statement.uses, ho])
    have hbody := body.goesOn names (fun o ho => h o (by simp [Statement.uses, ho])) hscattered
    simpa [Statement.fragments, Fragment.tokens] using hbody.controlled (.inl rfl) hc
  | .whileDo c body =>
    have hc := c.isExpression fun o ho => h o (by simp [Statement.uses, ho])
    have hbody := body.goesOn names (fun o ho => h o (by simp [Statement.uses, ho])) hscattered
    simpa [Statement.fragments, Fragment.tokens] using hbody.controlled (.inr rfl) hc
  | .read .decimal hasInto x =>
    have hx : x ∉ C.keywords := h ⟨x, .target, .plain⟩ (by simp [Statement.uses])
    simpa [Statement.fragments] using goesOn_readDecimal hx
  | .printArray x =>
    have hx : x ∉ C.keywords := h ⟨x, .target, .array⟩ (by simp [Statement.uses])
    simpa [Statement.fragments] using goesOn_printArray hx (names.size x)
  | .read .character _ _ | .empty | .assign _ _ | .assignElement _ _ _ | .call _ | .compound _ _
  | .printName _ _ | .printNumber _ _ | .printText _ => exact hscattered.elim

/-- **A statement is a single one of C unless it is scattered**, with the semicolon that is put
behind it. -/
theorem Statement.isSingle_iff (names : Names) (t : Statement) (h : FreeOfKeywords t.uses) :
    IsSingle (cTokens (t.fragments names) ++ [.mark ";"]) ↔ ¬ t.Scattered :=
  ⟨fun hsingle hscattered => (t.goesOn names h hscattered).not_isSingle hsingle,
    (t.reading names h).isSingle⟩

end PlZero.Tree
