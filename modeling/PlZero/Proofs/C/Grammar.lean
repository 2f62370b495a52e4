import PlZero.Proofs.C.Scanner

/-!
# Expressions and statements of C

The grammar of C, as a predicate on sequences of tokens. An expression has a level
(`Expression`): the tightest is 0, that of names, calls and subscripts, and a level more stands for
the next looser operators, up to 15 for the comma. A statement is made of expressions and of other
statements (`Statement`).

Left out are types other than basic ones, generic selections, compound literals and the declarations
of a block, which may only be a sequence of statements here.

A statement in which no brace opens, and which has no `else`, `do` or `for`, has one semicolon only,
and ends with it (`Statement.endsOnce`). That is how it can be seen that a text is more than
one statement.
-/

namespace PlZero.C

/-- The keywords of C. -/
def keywords : List String :=
  ["auto", "break", "case", "char", "const", "continue", "default", "do", "double", "else", "enum",
    "extern", "float", "for", "goto", "if", "inline", "int", "long", "register", "restrict",
    "return", "short", "signed", "sizeof", "static", "struct", "switch", "typedef", "union",
    "unsigned", "void", "volatile", "while"]

/-- The words of basic types. -/
def typeWords : List String :=
  ["char", "const", "double", "float", "int", "long", "short", "signed", "unsigned", "void",
    "volatile"]

/-- The operators between two operands, which associate to the left, with their levels. -/
def binaryOperators : List (String × Nat) :=
  [("*", 3), ("/", 3), ("%", 3), ("+", 4), ("-", 4), ("<<", 5), (">>", 5), ("<", 6), (">", 6),
    ("<=", 6), (">=", 6), ("==", 7), ("!=", 7), ("&", 8), ("^", 9), ("|", 10), ("&&", 11),
    ("||", 12), (",", 15)]

/-- The operators in front of an operand. -/
def unaryOperators : List String := ["&", "*", "+", "-", "~", "!"]

/-- The operators that count up or down. -/
def stepOperators : List String := ["++", "--"]

/-- The operators in front of the name of a member. -/
def memberOperators : List String := [".", "->"]

/-- The operators that store a value. -/
def assignmentOperators : List String :=
  ["=", "*=", "/=", "%=", "+=", "-=", "<<=", ">>=", "&=", "^=", "|="]

/-! ### Expressions -/

/-- The tokens are an expression whose operators bind at least as tightly as the level says. -/
inductive Expression : Nat → List Token → Prop
  | word {x : String} (free : x ∉ keywords) : Expression 0 [.word x]
  | number (text : String) : Expression 0 [.number text]
  | quoted (text : String) : Expression 0 [.quoted text]
  | group {ts : List Token} (inner : Expression 15 ts) :
    Expression 0 (.mark "(" :: (ts ++ [.mark ")"]))
  | element {ts us : List Token} (array : Expression 0 ts) (index : Expression 15 us) :
    Expression 0 (ts ++ .mark "[" :: (us ++ [.mark "]"]))
  | callNone {ts : List Token} (function : Expression 0 ts) :
    Expression 0 (ts ++ [.mark "(", .mark ")"])
  /-- A call; a list of arguments is like a comma expression. -/
  | call {ts us : List Token} (function : Expression 0 ts) (arguments : Expression 15 us) :
    Expression 0 (ts ++ .mark "(" :: (us ++ [.mark ")"]))
  | member {ts : List Token} {op x : String} (operator : op ∈ memberOperators)
    (free : x ∉ keywords) (whole : Expression 0 ts) : Expression 0 (ts ++ [.mark op, .word x])
  | stepBehind {ts : List Token} {op : String} (operator : op ∈ stepOperators)
    (operand : Expression 0 ts) : Expression 0 (ts ++ [.mark op])
  | stepBefore {ts : List Token} {op : String} (operator : op ∈ stepOperators)
    (operand : Expression 1 ts) : Expression 1 (.mark op :: ts)
  | unary {ts : List Token} {op : String} (operator : op ∈ unaryOperators)
    (operand : Expression 2 ts) : Expression 1 (.mark op :: ts)
  | sizeOf {ts : List Token} (operand : Expression 1 ts) : Expression 1 (.word "sizeof" :: ts)
  | cast {names : List String} {ts : List Token} (type : ∀ n ∈ names, n ∈ typeWords)
    (operand : Expression 2 ts) :
    Expression 2 (.mark "(" :: (names.map .word ++ .mark ")" :: ts))
  | binary {l : Nat} {ts us : List Token} {op : String} (operator : (op, l) ∈ binaryOperators)
    (left : Expression l ts) (right : Expression (l - 1) us) :
    Expression l (ts ++ .mark op :: us)
  | conditional {ts us vs : List Token} (test : Expression 12 ts) (yes : Expression 15 us)
    (no : Expression 13 vs) : Expression 13 (ts ++ .mark "?" :: (us ++ .mark ":" :: vs))
  | assign {ts us : List Token} {op : String} (operator : op ∈ assignmentOperators)
    (target : Expression 1 ts) (value : Expression 14 us) : Expression 14 (ts ++ .mark op :: us)
  | loosen {l l' : Nat} {ts : List Token} (tight : Expression l ts) (le : l ≤ l') :
    Expression l' ts

/-- The tokens are an expression, or there are none. -/
def IsOptional (ts : List Token) : Prop := ts = [] ∨ Expression 15 ts

/-! ### Statements -/

/-- The tokens are a statement. -/
inductive Statement : List Token → Prop
  | labelled {x : String} {ts : List Token} (free : x ∉ keywords) (body : Statement ts) :
    Statement (.word x :: .mark ":" :: ts)
  | caseLabel {ts us : List Token} (value : Expression 13 ts) (body : Statement us) :
    Statement (.word "case" :: (ts ++ .mark ":" :: us))
  | defaultLabel {ts : List Token} (body : Statement ts) :
    Statement (.word "default" :: .mark ":" :: ts)
  | empty : Statement [.mark ";"]
  | expression {ts : List Token} (value : Expression 15 ts) : Statement (ts ++ [.mark ";"])
  | compound {parts : List (List Token)} (all : ∀ ts ∈ parts, Statement ts) :
    Statement (.mark "\x7b" :: (parts.flatten ++ [.mark "\x7d"]))
  | ifThen {ts us : List Token} (test : Expression 15 ts) (body : Statement us) :
    Statement (.word "if" :: .mark "(" :: (ts ++ .mark ")" :: us))
  | ifElse {ts us vs : List Token} (test : Expression 15 ts) (yes : Statement us)
    (no : Statement vs) :
    Statement (.word "if" :: .mark "(" :: (ts ++ .mark ")" :: (us ++ .word "else" :: vs)))
  | switch {ts us : List Token} (value : Expression 15 ts) (body : Statement us) :
    Statement (.word "switch" :: .mark "(" :: (ts ++ .mark ")" :: us))
  | whileDo {ts us : List Token} (test : Expression 15 ts) (body : Statement us) :
    Statement (.word "while" :: .mark "(" :: (ts ++ .mark ")" :: us))
  | doWhile {ts us : List Token} (test : Expression 15 ts) (body : Statement us) :
    Statement (.word "do" :: (us ++ .word "while" :: .mark "(" :: (ts ++ [.mark ")", .mark ";"])))
  | forLoop {ts us vs ws : List Token} (first : IsOptional ts) (test : IsOptional us)
    (next : IsOptional vs) (body : Statement ws) :
    Statement (.word "for" :: .mark "(" ::
      (ts ++ .mark ";" :: (us ++ .mark ";" :: (vs ++ .mark ")" :: ws))))
  | goto {x : String} (free : x ∉ keywords) : Statement [.word "goto", .word x, .mark ";"]
  | leave {x : String} (word : x ∈ ["continue", "break", "return"]) :
    Statement [.word x, .mark ";"]
  | returnValue {ts : List Token} (value : Expression 15 ts) :
    Statement (.word "return" :: (ts ++ [.mark ";"]))

/-- The tokens are statements, one behind the other. -/
def IsSequence (ts : List Token) : Prop :=
  ∃ parts : List (List Token), (∀ us ∈ parts, Statement us) ∧ ts = parts.flatten

/-- The tokens are one statement, followed at most by empty ones. -/
def IsSingle (ts : List Token) : Prop :=
  ∃ us vs, ts = us ++ vs ∧ Statement us ∧ ∀ v ∈ vs, v = .mark ";"

/-! ### Semicolons -/

/-- The token does not end a statement, opens no block, and begins no part of a statement that may
hold several semicolons. -/
def IsFlat (t : Token) : Prop :=
  t ∉ [Token.mark ";", .mark "\x7b", .word "else", .word "do", .word "for"]

instance (t : Token) : Decidable (IsFlat t) := inferInstanceAs (Decidable (t ∉ _))

theorem isFlat_word {x : String} (h : x ∉ keywords) : IsFlat (.word x) := by
  have hne : ∀ k ∈ ["else", "do", "for"], x ≠ k := by
    rintro k hk rfl
    exact h ((by decide : ∀ k ∈ ["else", "do", "for"], k ∈ keywords) _ hk)
  simpa [IsFlat] using hne

theorem isFlat_operator {op : String} (h : op ∈ memberOperators ++ (stepOperators ++
    (unaryOperators ++ (assignmentOperators ++ binaryOperators.map Prod.fst)))) :
    IsFlat (.mark op) := by
  have hall : ∀ op ∈ memberOperators ++ (stepOperators ++
      (unaryOperators ++ (assignmentOperators ++ binaryOperators.map Prod.fst))),
      IsFlat (.mark op) := by decide
  exact hall op h

theorem isFlat_typeWord {x : String} (h : x ∈ typeWords) : IsFlat (.word x) := by
  have hall : ∀ x ∈ typeWords, IsFlat (.word x) := by decide
  exact hall x h

/-- Expressions are flat. -/
theorem Expression.isFlat {l : Nat} {ts : List Token} (h : Expression l ts) :
    ∀ t ∈ ts, IsFlat t := by
  have hopen : IsFlat (.mark "(") := by decide
  have hclose : IsFlat (.mark ")") := by decide
  have hopen' : IsFlat (.mark "[") := by decide
  have hclose' : IsFlat (.mark "]") := by decide
  induction h with
  | word free => simpa using isFlat_word free
  | number text => simp [IsFlat]
  | quoted text => simp [IsFlat]
  | group _ ih => simpa [or_imp, forall_and] using ⟨hopen, ih, hclose⟩
  | element _ _ ih ih' => simpa [or_imp, forall_and] using ⟨ih, hopen', ih', hclose'⟩
  | callNone _ ih => simpa [or_imp, forall_and] using ⟨ih, hopen, hclose⟩
  | call _ _ ih ih' => simpa [or_imp, forall_and] using ⟨ih, hopen, ih', hclose⟩
  | member hop free _ ih =>
    simpa [or_imp, forall_and] using ⟨ih, isFlat_operator (by simp [hop]), isFlat_word free⟩
  | stepBehind hop _ ih =>
    simpa [or_imp, forall_and] using ⟨ih, isFlat_operator (by simp [hop])⟩
  | stepBefore hop _ ih =>
    simpa using ⟨isFlat_operator (by simp [hop]), ih⟩
  | unary hop _ ih => simpa using ⟨isFlat_operator (by simp [hop]), ih⟩
  | sizeOf _ ih => simpa using ⟨by decide, ih⟩
  | cast type _ ih =>
    have htype : ∀ n, n ∈ _ → IsFlat (.word n) := fun n hn => isFlat_typeWord (type n hn)
    simpa [or_imp, forall_and] using ⟨hopen, htype, hclose, ih⟩
  | @binary l _ _ op hop _ _ ih ih' =>
    have hmem : op ∈ binaryOperators.map Prod.fst := List.mem_map_of_mem hop
    simpa [or_imp, forall_and] using ⟨ih, isFlat_operator (by simp [hmem]), ih'⟩
  | conditional _ _ _ ih ih' ih'' =>
    simpa [or_imp, forall_and] using ⟨ih, by decide, ih', by decide, ih''⟩
  | assign hop _ _ ih ih' =>
    simpa [or_imp, forall_and] using ⟨ih, isFlat_operator (by simp [hop]), ih'⟩
  | loosen _ _ ih => exact ih

/-- The tokens end in a semicolon, and nothing in front of it ends a statement. -/
def EndsOnce (ts : List Token) : Prop := ∃ us, ts = us ++ [.mark ";"] ∧ ∀ u ∈ us, IsFlat u

namespace EndsOnce

variable {t : Token} {ts us : List Token}

theorem semicolon : EndsOnce [.mark ";"] := ⟨[], rfl, by simp⟩

theorem cons (ht : IsFlat t) (h : EndsOnce ts) : EndsOnce (t :: ts) := by
  obtain ⟨vs, rfl, hvs⟩ := h
  exact ⟨t :: vs, rfl, by simpa using ⟨ht, hvs⟩⟩

theorem append (hus : ∀ u ∈ us, IsFlat u) (h : EndsOnce ts) : EndsOnce (us ++ ts) := by
  induction us with
  | nil => exact h
  | cons u us ih =>
    obtain ⟨hu, hus⟩ := List.forall_mem_cons.mp hus
    exact (ih hus).cons hu

end EndsOnce

/-- A statement in which nothing but semicolons could end a part of it ends once. -/
theorem Statement.endsOnce {ts : List Token} (h : Statement ts)
    (hflat : ∀ t ∈ ts, t = .mark ";" ∨ IsFlat t) : EndsOnce ts := by
  induction h with
  | labelled free _ ih =>
    have hbody := ih fun t ht => hflat t (by simp [ht])
    exact .cons (isFlat_word free) (.cons (by decide) hbody)
  | caseLabel value _ ih =>
    have hbody := ih fun t ht => hflat t (by simp [ht])
    exact .cons (by decide) (.append value.isFlat (.cons (by decide) hbody))
  | defaultLabel _ ih =>
    have hbody := ih fun t ht => hflat t (by simp [ht])
    exact .cons (by decide) (.cons (by decide) hbody)
  | empty => exact .semicolon
  | expression value => exact .append value.isFlat .semicolon
  | compound => exact absurd (hflat _ (List.mem_cons_self ..)) (by decide)
  | ifThen test _ ih | switch test _ ih | whileDo test _ ih =>
    have hbody := ih fun t ht => hflat t (by simp [ht])
    exact .cons (by decide) (.cons (by decide) (.append test.isFlat (.cons (by decide) hbody)))
  | ifElse => exact absurd (hflat (.word "else") (by simp)) (by decide)
  | doWhile => exact absurd (hflat _ (List.mem_cons_self ..)) (by decide)
  | forLoop => exact absurd (hflat _ (List.mem_cons_self ..)) (by decide)
  | goto free => exact .cons (by decide) (.cons (isFlat_word free) .semicolon)
  | @leave x word =>
    have hword : ∀ x ∈ ["continue", "break", "return"], IsFlat (.word x) := by decide
    exact .cons (hword x word) .semicolon
  | returnValue value => exact .cons (by decide) (.append value.isFlat .semicolon)

/-- Two texts that are equal go on in the same way behind their first semicolon. -/
theorem behind_first_semicolon {us us' vs vs' : List Token} (hus : ∀ u ∈ us, IsFlat u)
    (hus' : ∀ u ∈ us', IsFlat u) (h : us ++ .mark ";" :: vs = us' ++ .mark ";" :: vs') :
    vs = vs' := by
  have hsemicolon : ¬ IsFlat (.mark ";") := by decide
  induction us generalizing us' with
  | nil =>
    cases us' with
    | nil => exact (List.cons.inj h).2
    | cons u' us' =>
      obtain ⟨rfl, -⟩ := List.cons.inj h
      exact absurd (hus' _ (List.mem_cons_self ..)) hsemicolon
  | cons u us ih =>
    cases us' with
    | nil =>
      obtain ⟨rfl, -⟩ := List.cons.inj h
      exact absurd (hus _ (List.mem_cons_self ..)) hsemicolon
    | cons u' us' =>
      obtain ⟨-, hrest⟩ := List.cons.inj h
      exact ih (fun v hv => hus v (List.mem_cons_of_mem u hv))
        (fun v hv => hus' v (List.mem_cons_of_mem u' hv)) hrest

/-- A text without blocks that goes on behind its first semicolon is more than one statement. -/
theorem not_isSingle {us vs : List Token} (hus : ∀ u ∈ us, IsFlat u)
    (hvs : ∀ v ∈ vs, v = .mark ";" ∨ IsFlat v) (hmore : ∃ v ∈ vs, v ≠ .mark ";") :
    ¬ IsSingle (us ++ .mark ";" :: vs) := by
  rintro ⟨ts, ws, heq, hstatement, hempty⟩
  have hall : ∀ t ∈ ts, t = .mark ";" ∨ IsFlat t := by
    intro t ht
    have hmem : t ∈ us ++ .mark ";" :: vs := heq ▸ List.mem_append_left ws ht
    rcases List.mem_append.mp hmem with hmem | hmem
    · exact .inr (hus t hmem)
    · rcases List.mem_cons.mp hmem with rfl | hmem
      · exact .inl rfl
      · exact hvs t hmem
  obtain ⟨front, rfl, hfront⟩ := hstatement.endsOnce hall
  have hcut : us ++ .mark ";" :: vs = front ++ .mark ";" :: ws := by simpa using heq
  obtain ⟨v, hv, hne⟩ := hmore
  exact hne (hempty v (behind_first_semicolon hus hfront hcut ▸ hv))

end PlZero.C
