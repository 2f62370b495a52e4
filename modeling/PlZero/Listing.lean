import PlZero.Delivery
import PlZero.Sink

/-!
# Token listings

A listing has one entry for each token of a program, in order: its line, its class and its
spelling, each entry on a line of its own. The end of the input has no entry. Names,
keywords and numbers are put between quotes; marks stand bare, and so do quoted texts, which
have quotes of their own.
-/

namespace PlZero

/-- Whether the spelling of a token is put between quotes. -/
def Token.isQuotedInListing : Token → Bool
  | .name _ | .keyword _ | .number _ _ => true
  | .text _ | .mark _ | .endOfInput => false

namespace Listing

/-- The entry of a token. -/
def entry (t : Located Token) : String :=
  let lexeme := if t.value.isQuotedInListing then "'" ++ t.value.lexeme ++ "'" else t.value.lexeme
  "(" ++ Nat.repr t.line.toNat ++ "|" ++ t.value.className ++ ") " ++ lexeme ++ "\n"

/-- The parts in which the entry of a token is written, one after the other. -/
def parts (t : Located Token) : List String :=
  let (opening, closing) := if t.value.isQuotedInListing then (") '", "'\n") else (") ", "\n")
  ["(", Nat.repr t.line.toNat, "|", t.value.className, opening, t.value.lexeme, closing]

/-- The parts make up the whole entry. -/
theorem join_parts (t : Located Token) : String.join (parts t) = entry t := by
  rw [← String.toList_inj]
  cases h : t.value.isQuotedInListing <;> simp [parts, entry, h]

/-- Writes the entries of the items, the last of which in front of them was on the line `last`. The
end of the input has a line, but nothing is written for it. -/
def write {σ : Type} [Sink σ] (last : Line) : List Item → EStateM (Located Failure) σ Unit
  | [] => blame last Sink.flush
  | ⟨line, .error e⟩ :: _ => throw ⟨line, .lexical e⟩
  | ⟨line, .ok t⟩ :: items => do
    if t ≠ .endOfInput then blame line (Sink.writeParts (parts ⟨line, t⟩))
    write line items

/-- The entry of an item, if it has one. -/
def entry? (i : Item) : Option (Located String) :=
  match i.value with
  | .ok .endOfInput => none
  | .ok t => some ⟨i.line, entry ⟨i.line, t⟩⟩
  | .error _ => none

/-- A listing ends as the items do: on the last line, or with the failure that stops them. -/
def ending (items : List Item) : Except (Located Failure) Line :=
  match items.getLast? with
  | none => .ok .first
  | some ⟨line, .ok _⟩ => .ok line
  | some ⟨line, .error e⟩ => .error ⟨line, .lexical e⟩

end Listing

/-- Lists the tokens of a program into a sink. -/
def listTokensInto {σ : Type} [Sink σ] (source : Source) : EStateM (Located Failure) σ Unit :=
  Listing.write .first source.items

/-- The account of listing the tokens of a program. -/
def listTokens (source : Source) : Account :=
  let items := source.items
  ⟨items.filterMap Listing.entry?, Listing.ending items⟩

end PlZero
