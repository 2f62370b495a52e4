import PlZero.Proofs.Tree

/-!
# The C text of a tree

Each part of a tree stands for a piece of C text, which is put together from those of its own parts
(`Program.code`). A name is itself, a declaration stands where it does in the program, and the body
of the program is the main function behind the procedures. The text depends on what names mean in
one place only: how far an array is printed.

It is the text of the fragments of the tree, one behind the other (`Program.codeOf_fragments`).
-/

namespace PlZero.Tree

/-! ### Expressions and conditions -/

def Sign.code : Sign → String
  | plus => "+"
  | minus => "-"

/-- The text of a sign that may be missing. -/
def signCode : Option Sign → String
  | none => ""
  | some sign => sign.code

def Scaling.code : Scaling → String
  | times => "*"
  | dividedBy => "/"

def Relation.code : Relation → String
  | equal => "=="
  | unequal => "!="
  | below => "<"
  | above => ">"

def Numeral.code (n : Numeral) : String := Text.decimal n.value

mutual

def Expression.code : Expression → String
  | .mk sign first more => signCode sign ++ first.code ++ more.code

def Terms.code : Terms → String
  | .done => ""
  | .next sign term more => sign.code ++ term.code ++ more.code

def Term.code : Term → String
  | .mk first more => first.code ++ more.code

def Factors.code : Factors → String
  | .done => ""
  | .next scaling factor more => scaling.code ++ factor.code ++ more.code

def Factor.code : Factor → String
  | .name x => x
  | .element x index => x ++ "[" ++ index.code ++ "]"
  | .number n => n.code
  | .group inner => "(" ++ inner.code ++ ")"

end

def Condition.code : Condition → String
  | .odd e => "(" ++ e.code ++ ")&1"
  | .compare left relation right => left.code ++ relation.code ++ right.code

/-! ### Statements -/

/-- Prints a number, or the character that it stands for. -/
def printCode (form : Form) (operand : String) : String :=
  match form with
  | .decimal => "(void) fprintf(stdout, \"%ld\", (long) " ++ operand ++ ");"
  | .character => "(void) fprintf(stdout, \"%c\", (unsigned char) " ++ operand ++ ");"

/-- Reads a number, which stands on a line of its own, or a character. -/
def readCode (form : Form) (x : String) : String :=
  match form with
  | .decimal =>
    "if(fgets(__stdin, sizeof(__stdin), stdin) == NULL)__stdin[0] = '\\0';\n" ++
    "if(__stdin[0] != '\\0' && __stdin[strlen(__stdin) - 1] == '\\n')" ++
    "__stdin[strlen(__stdin) - 1] = '\\0';\n" ++ x ++ "=__pl0_parse_int(__stdin);"
  | .character => x ++ "=(int) fgetc(stdin);"

/-- Prints the elements of an array up to the first that is zero. -/
def printArrayCode (x : String) (size : Nat) : String :=
  "__writestridx = 0;\n" ++
  "while(__writestridx<" ++ Text.decimal size ++ "&&" ++ x ++ "[__writestridx]!='\\0')\n" ++
  "(void) putchar((unsigned char) " ++ x ++ "[__writestridx++]);"

mutual

/-- The text of a statement, where names mean what `names` says. -/
def Statement.code (names : Names) : Statement → String
  | .empty => ""
  | .assign x value => x ++ "=" ++ value.code
  | .assignElement x index value => x ++ "[" ++ index.code ++ "]=" ++ value.code
  | .call p => p ++ "();\n"
  | .compound first more => "\x7b\n" ++ first.code names ++ more.code names
  | .ifThen c body => "if(" ++ c.code ++ ")\n" ++ body.code names
  | .whileDo c body => "while(" ++ c.code ++ ")\n" ++ body.code names
  | .printName form x => printCode form x
  | .printNumber form n => printCode form n.code
  | .read form _ x => readCode form x
  | .printArray x => printArrayCode x (names.size x)
  | .printText content => "(void) fputs(" ++ Text.cString content ++ ", stdout);"

def Statements.code (names : Names) : Statements → String
  | .done => ";\n\x7d\n"
  | .next s more => ";\n" ++ s.code names ++ more.code names

end

/-! ### Declarations and programs -/

def Constant.code (c : Constant) : String :=
  "const long " ++ c.name ++ "=" ++ c.value.code ++ ";\n"

def Variable.code (v : Variable) : String :=
  match v.size with
  | none => "long " ++ v.name ++ ";\n"
  | some n => "long " ++ v.name ++ "[" ++ Text.decimal n.value.toNat ++ "];\n"

/-- The declarations of variables, behind which a blank line stands. -/
def variablesCode (vars : List Variable) : String :=
  if vars.isEmpty then "" else String.join (vars.map Variable.code) ++ "\n"

/-- What stands around the statement of a block. -/
def bodyCode (kind : PlZero.Block) (statement : String) : String :=
  match kind with
  | .program => "int\nmain(int argc, char *argv[])\n\x7b\n" ++ statement ++ ";\nreturn 0;\n\x7d\n\n"
  | .procedure => statement ++ ";\n\x7d\n\n"

mutual

/-- The text of a block at a level, where the names mean what `scope` says. -/
def Block.code (kind : PlZero.Block) (level : Nat) (scope : Scope) : Block → String
  | .mk constants vars procedures body =>
    let own := extend scope (ownDeclarations level constants vars)
    let all := extend own (procedures.declarations level)
    String.join (constants.map Constant.code) ++ variablesCode vars ++
      procedures.code level own ++ bodyCode kind (body.code all.lookup)

/-- The text of procedures; the body of each may call it, and those in front of it. -/
def Procedures.code (level : Nat) (scope : Scope) : Procedures → String
  | .done => ""
  | .next name block more =>
    let named := extend scope [procedureDeclaration level name]
    "void\n" ++ name ++ "(void)\n\x7b\n" ++ block.code .procedure (level + 1) named ++
      more.code level named

end

/-- The C text of a program, between the two ends of the frame that every program has. -/
def Program.code (p : Program) : String := p.block.code .program 0 .initial

/-! ### The text of the fragments -/

theorem Sign.text_mark (sign : Sign) : (Fragment.mark sign.mark).text = sign.code := by
  cases sign <;> rfl

theorem Scaling.text_mark (scaling : Scaling) :
    (Fragment.mark scaling.mark).text = scaling.code := by
  cases scaling <;> rfl

theorem Relation.text_fragment (relation : Relation) : relation.fragment.text = relation.code := by
  cases relation <;> rfl

theorem codeOf_singleton (f : Fragment) : codeOf [f] = f.text := by simp

theorem codeOf_flatMap {α : Type} (fragments : α → List Fragment) (as : List α) :
    codeOf (as.flatMap fragments) = String.join (as.map fun a => codeOf (fragments a)) := by
  induction as with
  | nil => rfl
  | cons a as ih => simp [ih]

theorem codeOf_signFragments (sign : Option Sign) :
    codeOf (signFragments sign) = signCode sign := by
  cases sign with
  | none => rfl
  | some sign => rw [signFragments, codeOf_singleton, sign.text_mark, signCode]

mutual

theorem Expression.codeOf_fragments : ∀ e : Expression, codeOf e.fragments = e.code
  | .mk sign first more => by
    rw [Expression.fragments, codeOf_append, codeOf_append, codeOf_signFragments,
      first.codeOf_fragments, more.codeOf_fragments, Expression.code, String.append_assoc]

theorem Terms.codeOf_fragments : ∀ ts : Terms, codeOf ts.fragments = ts.code
  | .done => rfl
  | .next sign term more => by
    rw [Terms.fragments, codeOf_cons, codeOf_append, sign.text_mark, term.codeOf_fragments,
      more.codeOf_fragments, Terms.code, String.append_assoc]

theorem Term.codeOf_fragments : ∀ t : Term, codeOf t.fragments = t.code
  | .mk first more => by
    rw [Term.fragments, codeOf_append, first.codeOf_fragments, more.codeOf_fragments, Term.code]

theorem Factors.codeOf_fragments : ∀ fs : Factors, codeOf fs.fragments = fs.code
  | .done => rfl
  | .next scaling factor more => by
    rw [Factors.fragments, codeOf_cons, codeOf_append, scaling.text_mark, factor.codeOf_fragments,
      more.codeOf_fragments, Factors.code, String.append_assoc]

theorem Factor.codeOf_fragments : ∀ f : Factor, codeOf f.fragments = f.code
  | .name _ => codeOf_singleton _
  | .number _ => codeOf_singleton _
  | .element x index => by
    simp only [Factor.fragments, Factor.code, codeOf_cons, codeOf_append, codeOf_nil,
      index.codeOf_fragments, String.append_assoc]
    rfl
  | .group inner => by
    simp only [Factor.fragments, Factor.code, codeOf_cons, codeOf_append, codeOf_nil,
      inner.codeOf_fragments, String.append_assoc]
    rfl

end

theorem Condition.codeOf_fragments (c : Condition) : codeOf c.fragments = c.code := by
  cases c with
  | odd e =>
    simp only [fragments, code, codeOf_cons, codeOf_append, codeOf_nil, e.codeOf_fragments,
      String.append_assoc]
    rfl
  | compare left relation right =>
    simp only [fragments, code, codeOf_cons, codeOf_append, left.codeOf_fragments,
      relation.text_fragment, right.codeOf_fragments, String.append_assoc]

theorem text_print (form : Form) (operand : Operand) :
    (Fragment.print form operand).text = printCode form operand.text := by
  cases form <;> rfl

theorem text_read (form : Form) (x : String) :
    (Fragment.read form x).text = readCode form x := by
  cases form <;> rfl

mutual

theorem Statement.codeOf_fragments (names : Names) :
    ∀ s : Statement, codeOf (s.fragments names) = s.code names
  | .empty => rfl
  | .assign x value => by
    simp only [Statement.fragments, Statement.code, codeOf_cons, value.codeOf_fragments,
      String.append_assoc]
    rfl
  | .assignElement x index value => by
    have hbecomes : "]=" = "]" ++ "=" := rfl
    simp only [Statement.fragments, Statement.code, codeOf_cons, codeOf_append,
      index.codeOf_fragments, value.codeOf_fragments, hbecomes, String.append_assoc]
    rfl
  | .compound first more => by
    simp only [Statement.fragments, Statement.code, codeOf_cons, codeOf_append,
      first.codeOf_fragments names, more.codeOf_fragments names, String.append_assoc]
    rfl
  | .ifThen c body | .whileDo c body => by
    simp only [Statement.fragments, Statement.code, codeOf_cons, codeOf_append,
      c.codeOf_fragments, body.codeOf_fragments names, String.append_assoc]
    rfl
  | .printName form x | .printNumber form x => by
    rw [Statement.fragments, codeOf_singleton, text_print]
    rfl
  | .read form _ x => by
    rw [Statement.fragments, codeOf_singleton, text_read, Statement.code]
  | .call _ => codeOf_singleton _
  | .printArray _ => codeOf_singleton _
  | .printText _ => codeOf_singleton _

theorem Statements.codeOf_fragments (names : Names) :
    ∀ ss : Statements, codeOf (ss.fragments names) = ss.code names
  | .done => codeOf_singleton _
  | .next s more => by
    simp only [Statements.fragments, Statements.code, codeOf_cons, codeOf_append,
      s.codeOf_fragments names, more.codeOf_fragments names, String.append_assoc]
    rfl

end

theorem Constant.codeOf_fragments (c : Constant) : codeOf c.fragments = c.code := by
  have hhead : (Fragment.constantHead c.name).text = "const long " ++ c.name ++ "=" := rfl
  have hvalue : (Fragment.constantValue c.value.value).text = c.value.code ++ ";\n" := rfl
  rw [fragments, codeOf_cons, codeOf_singleton, hhead, hvalue, code]
  simp only [String.append_assoc]

theorem Variable.codeOf_fragments (v : Variable) : codeOf v.fragments = v.code := by
  obtain ⟨x, size⟩ := v
  cases size with
  | none =>
    rw [fragments, boundFragments, List.nil_append, codeOf_cons, codeOf_singleton]
    rfl
  | some n =>
    have hhead : (Fragment.variableHead x).text = "long " ++ x := rfl
    have hbound : (Fragment.arrayBound n.value.toNat).text =
        "[" ++ Text.decimal n.value.toNat ++ "]" := rfl
    have hend : "];\n" = "]" ++ Fragment.variableEnd.text := rfl
    simp only [fragments, boundFragments, code, codeOf_cons, List.cons_append, List.nil_append,
      codeOf_nil, String.append_empty, hhead, hbound, hend, String.append_assoc]

theorem codeOf_variablesFragments (vars : List Variable) :
    codeOf (variablesFragments vars) = variablesCode vars := by
  cases vars with
  | nil => rfl
  | cons first more =>
    have hend : Fragment.variablesEnd.text = "\n" := rfl
    simp [variablesFragments, variablesCode, codeOf_flatMap, Variable.codeOf_fragments, hend,
      String.append_assoc]

theorem codeOf_body (kind : PlZero.Block) (fs : List Fragment) :
    codeOf (bodyHead kind ++ (fs ++ [.bodyEnd kind])) = bodyCode kind (codeOf fs) := by
  cases kind with
  | program =>
    have hhead : Fragment.mainHead.text = "int\nmain(int argc, char *argv[])\n\x7b\n" := rfl
    have hend : (Fragment.bodyEnd .program).text = ";\nreturn 0;\n\x7d\n\n" := rfl
    rw [bodyHead, codeOf_append, codeOf_append, codeOf_singleton, codeOf_singleton, hhead, hend,
      ← String.append_assoc]
    rfl
  | procedure =>
    have hend : (Fragment.bodyEnd .procedure).text = ";\n\x7d\n\n" := rfl
    rw [bodyHead, List.nil_append, codeOf_append, codeOf_singleton, hend]
    rfl

mutual

theorem Block.codeOf_fragments (kind : PlZero.Block) (level : Nat) (scope : Scope) :
    ∀ b : Block, codeOf (b.fragments kind level scope) = b.code kind level scope
  | .mk constants vars procedures body => by
    simp only [Block.fragments, Block.code, codeOf_append, codeOf_flatMap,
      Constant.codeOf_fragments, codeOf_variablesFragments,
      procedures.codeOf_fragments level, ← body.codeOf_fragments, ← codeOf_body,
      String.append_assoc]

theorem Procedures.codeOf_fragments (level : Nat) (scope : Scope) :
    ∀ ps : Procedures, codeOf (ps.fragments level scope) = ps.code level scope
  | .done => rfl
  | .next name block more => by
    have hhead : (Fragment.procedureHead name).text = "void\n" ++ name ++ "(void)\n\x7b\n" := rfl
    simp only [Procedures.fragments, Procedures.code, codeOf_cons, codeOf_append, hhead,
      block.codeOf_fragments, more.codeOf_fragments, String.append_assoc]

end

/-- **The text of a program is that of its fragments**, one behind the other. -/
theorem Program.codeOf_fragments (p : Program) : codeOf p.fragments = p.code :=
  p.block.codeOf_fragments .program 0 .initial

end PlZero.Tree
