import PlZero.Proofs.C.Fragments
import PlZero.Proofs.C.Scoping
import PlZero.Scope

/-!
# What fragments mean for the scopes of C

Most fragments declare nothing (`Fragment.IsQuiet`). The others are the preamble, which declares
three names of its own, the heads of declarations and functions, and the braces; there is one lemma
for each of them, which tells the frames behind it.
-/

namespace PlZero

open C (Reader specifiers)
open C.Reader (At undisturbed)

/-! ### Fragments that declare nothing -/

/-- The fragment declares nothing, and opens and closes no block. -/
def Fragment.IsQuiet : Fragment → Prop
  | name x | call x | read _ x | printArray x _ | print _ (.name x) => x ∉ specifiers
  | preamble | constantHead _ | variableHead _ | arrayBound _ | procedureHead _ | mainHead
  | bodyEnd _ | blockHead | blockEnd => False
  | _ => True

theorem Fragment.IsQuiet.undisturbed {f : Fragment} (h : f.IsQuiet) :
    undisturbed false f.tokens := by
  have hname {x : String} (hx : x ∉ specifiers) : specifiers.contains x = false := by simpa using hx
  cases f with
  | preamble | constantHead | variableHead | arrayBound | procedureHead | mainHead
  | bodyEnd | blockHead | blockEnd => exact h.elim
  | name x | call x | printArray x n =>
    simp only [Fragment.tokens, Reader.undisturbed, hname h]
    decide
  | read form x =>
    cases form with
    | decimal | character =>
      simp only [Fragment.tokens, Reader.undisturbed, hname h]
      decide
  | print form o =>
    have hoperand (ts : List C.Token) (hts : Reader.undisturbed false ts) :
        Reader.undisturbed false (o.token :: ts) := by
      cases o with
      | name x =>
        have hx : x ∉ specifiers := h
        simpa [Operand.token, Reader.undisturbed, hx] using hts
      | number n => simpa [Operand.token, Reader.undisturbed] using hts
    have hrest := hoperand [.mark ")", .mark ";"] (by decide)
    cases form with
    | decimal | character =>
      simp only [Fragment.tokens, Reader.undisturbed, hrest]
      decide
  | mark m => cases m <;> decide
  | constantValue n | number n | printText content =>
    simp only [Fragment.tokens, Reader.undisturbed]
    decide
  | _ => decide

/-- A quiet fragment leaves the frames as they are, wherever in it one is. -/
theorem Fragment.IsQuiet.read {f : Fragment} (h : f.IsQuiet) {r : Reader}
    {frames : List (List C.Symbol)} (hr : r.At .plain frames) :
    (r.read f.tokens).At .plain frames ∧ ∀ n, (r.read (f.tokens.take n)).frames = frames :=
  have hplain : C.Reader.Suits false .plain := rfl
  C.Reader.read_undisturbed hr hplain h.undisturbed

/-! ### Heads, bounds and braces -/

/-- What the preamble declares. -/
def preambleFrame : List C.Symbol :=
  [⟨"__pl0_parse_int", 17, false, true, none⟩, ⟨"__writestridx", 13, false, false, none⟩,
    ⟨"__stdin", 6, false, false, some "24"⟩]

theorem read_preamble : (Reader.start.read Fragment.preamble.tokens).At .plain [preambleFrame] := by
  have hread : Reader.start.read Fragment.preamble.tokens = ⟨86, .plain, [], [preambleFrame]⟩ := by
    decide +kernel
  rw [hread]
  exact ⟨rfl, rfl, rfl⟩

section Heads

variable {r : Reader} {top : List C.Symbol} {rest : List (List C.Symbol)} {x : String}

/-- The symbol that the head of a declaration declares, where it begins at `position`. -/
def declaredSymbol (kind : Kind) (x : String) (position : Nat) : C.Symbol where
  name := x
  position := position + if kind = .constant then 2 else 1
  isConst := kind = .constant
  isFunction := kind = .procedure
  bound := none

theorem read_constantHead (hr : r.At .plain (top :: rest)) (hx : x ∉ specifiers) :
    (r.read (Fragment.constantHead x).tokens).At .plain
      ((declaredSymbol .constant x r.position :: top) :: rest) := by
  obtain ⟨position, rfl⟩ := hr.exists_eq
  have hconst : "const" ∈ specifiers := by decide
  have hlong : "long" ∈ specifiers := by decide
  constructor <;>
    simp [Fragment.tokens, C.Reader.read, C.Reader.step, C.Reader.react, C.Reader.declare, hx,
      hconst, hlong, declaredSymbol]

theorem read_variableHead (hr : r.At .plain (top :: rest)) (hx : x ∉ specifiers) :
    (r.read (Fragment.variableHead x).tokens).At .named
      ((declaredSymbol .variable x r.position :: top) :: rest) := by
  obtain ⟨position, rfl⟩ := hr.exists_eq
  have hlong : "long" ∈ specifiers := by decide
  constructor <;>
    simp [Fragment.tokens, C.Reader.read, C.Reader.step, C.Reader.react, C.Reader.declare, hx,
      hlong, declaredSymbol]

theorem read_procedureHead (hr : r.At .plain (top :: rest)) (hx : x ∉ specifiers) :
    (r.read (Fragment.procedureHead x).tokens).At .plain
      ([] :: (declaredSymbol .procedure x r.position :: top) :: rest) := by
  obtain ⟨position, rfl⟩ := hr.exists_eq
  have hvoid : "void" ∈ specifiers := by decide
  constructor <;>
    simp [Fragment.tokens, C.Reader.read, C.Reader.step, C.Reader.react, C.Reader.declare,
      C.Reader.revise, hx, hvoid, declaredSymbol]

/-- The parameters of the main function, whose head begins at `position`. -/
def mainParameters (position : Nat) : List C.Symbol :=
  [⟨"argv", position + 8, false, false, none⟩, ⟨"argc", position + 4, false, false, none⟩]

theorem read_mainHead (hr : r.At .plain (top :: rest)) :
    (r.read Fragment.mainHead.tokens).At .plain
      (mainParameters r.position ::
        (declaredSymbol .procedure "main" r.position :: top) :: rest) := by
  obtain ⟨position, rfl⟩ := hr.exists_eq
  exact ⟨rfl, rfl, rfl⟩

theorem read_arrayBound {y : C.Symbol} (hr : r.At .named ((y :: top) :: rest)) (n : Nat) :
    (r.read (Fragment.arrayBound n).tokens).At .plain
      (({ y with bound := some (Text.decimal n) } :: top) :: rest) := by
  obtain ⟨position, rfl⟩ := hr.exists_eq
  exact ⟨rfl, rfl, rfl⟩

theorem read_variableEnd {mode : C.Mode} {frames : List (List C.Symbol)} (hr : r.At mode frames)
    (hmode : mode = .named ∨ mode = .plain) :
    (r.read Fragment.variableEnd.tokens).At .plain frames := by
  obtain ⟨position, rfl⟩ := hr.exists_eq
  rcases hmode with rfl | rfl <;> exact ⟨rfl, rfl, rfl⟩

theorem read_bodyEnd (hr : r.At .plain (top :: rest)) (b : Block) :
    (r.read (Fragment.bodyEnd b).tokens).At .plain rest := by
  obtain ⟨position, rfl⟩ := hr.exists_eq
  cases b <;> exact ⟨rfl, rfl, rfl⟩

theorem read_blockHead {frames : List (List C.Symbol)} (hr : r.At .plain frames) :
    (r.read Fragment.blockHead.tokens).At .plain ([] :: frames) := by
  obtain ⟨position, rfl⟩ := hr.exists_eq
  exact ⟨rfl, rfl, rfl⟩

theorem read_blockEnd (hr : r.At .plain (top :: rest)) :
    (r.read Fragment.blockEnd.tokens).At .plain rest := by
  obtain ⟨position, rfl⟩ := hr.exists_eq
  exact ⟨rfl, rfl, rfl⟩

end Heads

end PlZero
