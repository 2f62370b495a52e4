import PlZero.Proofs.C.Boundaries
import PlZero.Proofs.C.Evaluation
import PlZero.Proofs.Unspelled

/-!
# The numerals of the output

A number of the program is written by its value: as the value of a constant, the bound of an array,
an operand, or what a statement writes. The numbers that fragments are written for are those of the
tree (`Tree.Program.numbers_eq`), one fragment for each of them and in the same order.

Every number is written with as few digits as possible (`C.Canonical`), so it has no zero in front,
by which C would read it as an octal one.
-/

namespace PlZero

/-! ### Numerals -/

/-- The numerals among the tokens. -/
def C.numerals (ts : List C.Token) : List String :=
  ts.filterMap fun
    | .number text => some text
    | _ => none

/-- The numeral is the number in decimal digits, as few as possible, and C reads it as this number.
-/
structure C.Canonical (numeral : String) (n : Nat) : Prop where
  ne_nil : numeral.toList ≠ []
  isDigit : ∀ c ∈ numeral.toList, c.isDigit = true
  zero_of_head : numeral.toList.head? = some '0' → numeral = "0"
  placeValue_eq : placeValue numeral.toList = n
  constantValue_eq : C.constantValue numeral = n

theorem C.canonical_decimal (n : Nat) : C.Canonical (Text.decimal n) n where
  ne_nil := by
    rw [Text.toList_decimal_natCast]
    exact Nat.toDigits_ne_nil
  isDigit c hc := by
    rw [Text.toList_decimal_natCast] at hc
    exact Nat.isDigit_of_mem_toDigits (by decide) (by decide) hc
  zero_of_head hhead := by
    rw [Text.toList_decimal_natCast] at hhead
    rcases Nat.eq_zero_or_pos n with rfl | hn
    · rfl
    · exact absurd hhead (C.head?_toDigits hn)
  placeValue_eq := by
    rw [Text.toList_decimal_natCast, ← valueOf_eq_placeValue]
    exact Nat.ofDigitChars_ten_toDigits
  constantValue_eq := C.constantValue_decimal (Int.natCast_nonneg n)

/-! ### Numbers -/

/-- The number that the token is. -/
@[simp]
def Token.number? : Token → Option Nat
  | .number value _ => some value.toNat
  | _ => none

/-- The number of the program that the fragment is written for. -/
@[simp]
def Fragment.number? : Fragment → Option Nat
  | .constantValue value | .number value | .print _ (.number value) => some value.toNat
  | .arrayBound size => some size
  | _ => none

/-- A fragment for a number has this number for its only numeral. -/
theorem Fragment.WellFormed.numerals_eq {f : Fragment} (h : f.WellFormed) {n : Nat}
    (hn : f.number? = some n) : C.numerals f.tokens = [Text.decimal n] := by
  have hvalue {value : Int} (hvalue : 0 ≤ value) (hn : some value.toNat = some n) :
      Text.decimal value = Text.decimal n := by
    rw [← Option.some.inj hn, Int.toNat_of_nonneg hvalue]
  cases f with
  | constantValue value => exact congrArg ([·]) (hvalue h hn)
  | number value => exact congrArg ([·]) (hvalue h hn)
  | arrayBound size => exact congrArg (fun m : Nat => [Text.decimal m]) (Option.some.inj hn)
  | print form o =>
    cases o with
    | name x => cases hn
    | number value => cases form <;> exact congrArg ([·]) (hvalue h hn)
  | _ => cases hn

/-- The numerals of a fragment are numbers in decimal digits, also where it is written for none. -/
theorem Fragment.WellFormed.exists_numerals_eq {f : Fragment} (h : f.WellFormed) :
    ∃ ns : List Nat, C.numerals f.tokens = ns.map fun n : Nat => Text.decimal n := by
  cases hn : f.number? with
  | some n => exact ⟨[n], h.numerals_eq hn⟩
  | none =>
    cases f with
    | constantValue | number | arrayBound => cases hn
    | preamble => exact ⟨[24, 0, 10, 0, 1], rfl⟩
    | oddEnd => exact ⟨[1], rfl⟩
    | printArray x size => exact ⟨[0, size], rfl⟩
    | bodyEnd block =>
      cases block with
      | program => exact ⟨[0], rfl⟩
      | procedure => exact ⟨[], rfl⟩
    | print form o =>
      cases o with
      | name x => cases form <;> exact ⟨[], rfl⟩
      | number value => cases hn
    | read form x =>
      cases form with
      | decimal => exact ⟨[0, 0, 1, 1], rfl⟩
      | character => exact ⟨[], rfl⟩
    | _ => exact ⟨[], rfl⟩

/-- **The numerals of a fragment are canonical.** -/
theorem Fragment.WellFormed.canonical {f : Fragment} (h : f.WellFormed) :
    ∀ numeral ∈ C.numerals f.tokens, ∃ n, C.Canonical numeral n := by
  obtain ⟨ns, hns⟩ := h.exists_numerals_eq
  intro numeral hmem
  obtain ⟨n, -, rfl⟩ := List.mem_map.mp (hns ▸ hmem)
  exact ⟨n, C.canonical_decimal n⟩

namespace Tree

mutual

theorem Expression.numbers_eq (e : Expression) :
    e.fragments.filterMap Fragment.number? = e.tokens.filterMap Token.number? := by
  obtain ⟨sign, first, more⟩ := e
  have hsign : (signFragments sign).filterMap Fragment.number? =
      (signTokens sign).filterMap Token.number? := by
    cases sign <;> rfl
  simp [Expression.fragments, Expression.tokens, hsign, first.numbers_eq, more.numbers_eq]

theorem Terms.numbers_eq (ts : Terms) :
    ts.fragments.filterMap Fragment.number? = ts.tokens.filterMap Token.number? := by
  cases ts with
  | done => rfl
  | next sign term more =>
    simp [Terms.fragments, Terms.tokens, List.filterMap_cons, term.numbers_eq, more.numbers_eq]

theorem Term.numbers_eq (t : Term) :
    t.fragments.filterMap Fragment.number? = t.tokens.filterMap Token.number? := by
  obtain ⟨first, more⟩ := t
  simp [Term.fragments, Term.tokens, first.numbers_eq, more.numbers_eq]

theorem Factors.numbers_eq (fs : Factors) :
    fs.fragments.filterMap Fragment.number? = fs.tokens.filterMap Token.number? := by
  cases fs with
  | done => rfl
  | next scaling factor more =>
    simp [Factors.fragments, Factors.tokens, List.filterMap_cons,
      factor.numbers_eq, more.numbers_eq]

theorem Factor.numbers_eq (f : Factor) :
    f.fragments.filterMap Fragment.number? = f.tokens.filterMap Token.number? := by
  cases f with
  | name x => rfl
  | number n => rfl
  | element x index =>
    simp [Factor.fragments, Factor.tokens, List.filterMap_cons, index.numbers_eq]
  | group inner =>
    simp [Factor.fragments, Factor.tokens, List.filterMap_cons, inner.numbers_eq]

end

theorem Condition.numbers_eq (c : Condition) :
    c.fragments.filterMap Fragment.number? = c.tokens.filterMap Token.number? := by
  cases c with
  | odd e =>
    simp [Condition.fragments, Condition.tokens, List.filterMap_cons, e.numbers_eq]
  | compare left relation right =>
    cases relation <;>
      simp [Condition.fragments, Condition.tokens, List.filterMap_cons, Relation.fragment,
        left.numbers_eq, right.numbers_eq]

mutual

theorem Statement.numbers_eq (names : Names) (s : Statement) :
    (s.fragments names).filterMap Fragment.number? = s.tokens.filterMap Token.number? := by
  cases s with
  | assign x value =>
    simp [Statement.fragments, Statement.tokens, List.filterMap_cons, value.numbers_eq]
  | assignElement x index value =>
    simp [Statement.fragments, Statement.tokens, List.filterMap_cons,
      index.numbers_eq, value.numbers_eq]
  | compound first more =>
    simp [Statement.fragments, Statement.tokens, List.filterMap_cons,
      first.numbers_eq names, more.numbers_eq names]
  | ifThen c body | whileDo c body =>
    simp [Statement.fragments, Statement.tokens, List.filterMap_cons,
      c.numbers_eq, body.numbers_eq names]
  | read form hasInto x => cases hasInto <;> rfl
  | _ => rfl

theorem Statements.numbers_eq (names : Names) (ss : Statements) :
    (ss.fragments names).filterMap Fragment.number? = ss.tokens.filterMap Token.number? := by
  cases ss with
  | done => rfl
  | next s more =>
    simp [Statements.fragments, Statements.tokens, List.filterMap_cons,
      s.numbers_eq names, more.numbers_eq names]

end

/-- The numbers of a list of declarations are those of its members. -/
theorem numbers_listTokens {α : Type} (k : Keyword) (tokens : α → List Token) (as : List α) :
    (listTokens k tokens as).filterMap Token.number? =
      as.flatMap fun a => (tokens a).filterMap Token.number? := by
  cases as with
  | nil => rfl
  | cons first more =>
    simp [listTokens, listTail, List.filterMap_cons, List.filterMap_flatMap]

theorem Constant.numbers_eq (c : Constant) :
    c.fragments.filterMap Fragment.number? = c.tokens.filterMap Token.number? := rfl

theorem Variable.numbers_eq (v : Variable) :
    v.fragments.filterMap Fragment.number? = v.tokens.filterMap Token.number? := by
  obtain ⟨x, size⟩ := v
  cases size <;> rfl

theorem numbers_variables (vars : List Variable) :
    (variablesFragments vars).filterMap Fragment.number? =
      vars.flatMap fun v => v.tokens.filterMap Token.number? := by
  cases vars with
  | nil => rfl
  | cons first more =>
    simp [variablesFragments, List.filterMap_flatMap, Variable.numbers_eq]

mutual

theorem Block.numbers_eq (kind : PlZero.Block) (level : Nat) (scope : Scope) (b : Block) :
    (b.fragments kind level scope).filterMap Fragment.number? =
      b.tokens.filterMap Token.number? := by
  obtain ⟨constants, vars, procedures, body⟩ := b
  have hhead : (bodyHead kind).filterMap Fragment.number? = [] := by cases kind <;> rfl
  simp [Block.fragments, Block.tokens, List.filterMap_flatMap, numbers_listTokens,
    numbers_variables, Constant.numbers_eq, procedures.numbers_eq, hhead, body.numbers_eq,
    List.filterMap_cons]

theorem Procedures.numbers_eq (level : Nat) (scope : Scope) (ps : Procedures) :
    (ps.fragments level scope).filterMap Fragment.number? = ps.tokens.filterMap Token.number? := by
  cases ps with
  | done => rfl
  | next name block more =>
    simp [Procedures.fragments, Procedures.tokens, List.filterMap_cons,
      block.numbers_eq, more.numbers_eq]

end

/-- **Each number of a program is written once**, in the order of the text. -/
theorem Program.numbers_eq (p : Program) :
    p.fragments.filterMap Fragment.number? = p.tokens.filterMap Token.number? := by
  simp [Program.fragments, Program.tokens, p.block.numbers_eq]

end Tree

/-! ### The result -/

/-- The number that the item is. -/
def Item.number? (i : Item) : Option Nat := i.value.toOption.bind Token.number?

theorem Source.Reads.numbers_eq {source : Source} {tokens : List Token} (h : source.Reads tokens) :
    source.items.filterMap Item.number? = tokens.filterMap Token.number? := by
  let number (value : Except LexicalError Token) := value.toOption.bind Token.number?
  calc source.items.filterMap Item.number?
      = (source.items.map Located.value).filterMap number := by
        rw [List.filterMap_map]
        rfl
    _ = (tokens.map .ok).filterMap number := by
        rw [Source.reads_iff.mp h, List.filterMap_append]
        exact List.append_nil _
    _ = tokens.filterMap Token.number? := by
        rw [List.filterMap_map]
        rfl

/-- The fragments `fs` are the output of the text, between the two ends of the frame, and its
numbers are written with them: each once, in the order of the text and in canonical form. There are
no other numerals than canonical ones. -/
structure WritesNumbers (source : Source) (fs : List Fragment) : Prop where
  fragments_eq :
    (compileItems source.items).state.fragments = .preamble :: (fs ++ [.trailer])
  bytes_eq : ((compile source).deliver .unlimited).bytes =
    (Text.utf8 (Fragment.preamble.text ++ codeOf fs ++ Fragment.trailer.text)).toArray
  tokens_eq : C.tokens (codeOf fs) = fs.flatMap fun f => C.tokens f.text
  numbers_eq : fs.filterMap Fragment.number? = source.items.filterMap Item.number?
  numeral_eq : ∀ f ∈ fs, ∀ n, f.number? = some n →
    ∃ numeral, C.numerals (C.tokens f.text) = [numeral] ∧ C.Canonical numeral n
  canonical : ∀ numeral ∈ C.numerals (C.tokens (codeOf fs)), ∃ n, C.Canonical numeral n

theorem Source.Accepted.exists_writesNumbers {source : Source} (h : source.Accepted) :
    ∃ fs, WritesNumbers source fs := by
  obtain ⟨p, hp, -⟩ := h.exists_tree
  obtain ⟨⟨_, _, hjoined⟩, hfragments, hbytes⟩ := hp.output h
  refine ⟨p.fragments, hfragments, hbytes, hjoined.tokens_eq_flatMap,
    p.numbers_eq.trans hp.numbers_eq.symm, fun f hf n hn => ?_, fun numeral hmem => ?_⟩
  · have hf := hjoined.wellFormed f hf
    exact ⟨_, hf.tokens_text ▸ hf.numerals_eq hn, C.canonical_decimal n⟩
  · rw [hjoined.tokens_eq_flatMap, C.numerals, List.filterMap_flatMap] at hmem
    obtain ⟨f, hf, hnumeral⟩ := List.mem_flatMap.mp hmem
    have hf := hjoined.wellFormed f hf
    exact hf.canonical numeral (hf.tokens_text ▸ hnumeral)

/-- **Numbers are what their digits say, and nothing else about their spelling counts.** A number is
read as a whole, behind any gap: it is the value of its digits, or too large, with these digits
without the separators. The output of an accepted text has the numbers of the text in it, in decimal
digits and without a zero in front. Texts that are spelled alike but for separators and zeros in
front of numbers are both accepted or both refused, and the same bytes are written for both. -/
theorem numbers_by_value :
    (∀ gap number rest line, IsGap gap → IsNumber number →
      (∀ d ∈ rest.head?, isNumberPart d = false) →
      let digits := number.filter (· ≠ '_')
      let item : Item := ⟨gap.foldl Line.after line,
        if placeValue digits ≤ 2 ^ 63 - 1 then
          .ok (.number (placeValue digits) (String.ofList digits))
        else .error (.numberTooLarge (String.ofList digits))⟩
      (⟨gap ++ (number ++ rest), line⟩ : Cursor).next = (item, ⟨rest, item.line⟩)) ∧
    (∀ source : Source, ((compile source).deliver .unlimited).failure? = none →
      ∃ fs, WritesNumbers source fs) ∧
    ∀ a b : Source, Respelled a.text.toList b.text.toList →
      (((compile a).deliver .unlimited).failure? = none ↔
        ((compile b).deliver .unlimited).failure? = none) ∧
      ((compile a).deliver .unlimited).bytes = ((compile b).deliver .unlimited).bytes := by
  refine ⟨fun gap number rest line hgap hnumber hrest => ?_,
    fun source h => Source.Accepted.exists_writesNumbers h, fun a b h => ?_⟩
  · rw [Cursor.next_of_isNumber hgap hnumber hrest]
    simp only [← valueOf_eq_placeValue]
    rfl
  · obtain ⟨hbytes, haccepted⟩ := same_output_of_unspelled (h.items .first)
    exact ⟨haccepted, hbytes⟩

/-- A number with a separator and two zeros in front. -/
theorem numbers_by_value_zeros :
    let a : Source := ⟨"a.pl0", "writeInt 00_7."⟩
    let b : Source := ⟨"b.pl0", "writeInt 7."⟩
    ((compile a).deliver .unlimited).failure? = none ∧ Respelled a.text.toList b.text.toList ∧
      (⟨"00_7".toList ++ ['.'], 1⟩ : Cursor).next = (⟨1, .ok (.number 7 "007")⟩, ⟨['.'], 1⟩) ∧
      (∃ fs, WritesNumbers a fs) ∧
      ((compile a).deliver .unlimited).bytes = ((compile b).deliver .unlimited).bytes := by
  intro a b
  have haccepted : ((compile a).deliver .unlimited).failure? = none := by decide +kernel
  have ha : a.text.toList =
      [] ++ (Keyword.writeInt.spelling.toList ++ ([' '] ++ ("00_7".toList ++ ['.']))) := by
    decide +kernel
  have hb : b.text.toList =
      [] ++ (Keyword.writeInt.spelling.toList ++ ([' '] ++ ("7".toList ++ ['.']))) := by
    decide +kernel
  have hnumber : IsNumber "00_7".toList := ⟨'0', ['0', '_', '7'], rfl, rfl, by simp [isNumberPart]⟩
  have hnumber' : IsNumber "7".toList := ⟨'7', [], rfl, rfl, by simp⟩
  have hsame : SameNumber "00_7".toList "7".toList := by decide
  have hends : ∀ d ∈ ['.'].head?, isNumberPart d = false := by
    rintro _ ⟨⟩
    decide
  have hspelled : Respelled a.text.toList b.text.toList := by
    rw [ha, hb]
    have hspace : IsGap [' '] := .blank (by decide) .nil
    have hword : Keyword.writeInt.spelling.toList.head? = some 'w' := by decide
    refine .token .nil (.keyword .writeInt _) ?_
      (.number hspace hnumber hnumber' hsame hends (.refl _))
    rw [hword]
    rintro _ ⟨⟩ _ ⟨⟩
    decide
  obtain ⟨hread, hwritten, hrespelled⟩ := numbers_by_value
  have hseven := hread [] "00_7".toList ['.'] 1 .nil hnumber hends
  exact ⟨haccepted, hspelled, hseven, hwritten a haccepted, (hrespelled a b hspelled).2⟩

end PlZero
