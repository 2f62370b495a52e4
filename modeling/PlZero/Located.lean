/-!
# Values on source lines

A program is read once, from left to right, so the only position that is kept is the line:
tokens, failures and written pieces all carry the line they belong to. Lines are counted
from one in a 32-bit word.
-/

namespace PlZero

/-- A line number, counted from one. -/
abbrev Line := UInt32

/-- The line on which a program begins. -/
def Line.first : Line := 1

/-- The line after `c` has been read on `line`: only a line feed moves on. -/
def Line.after (line : Line) (c : Char) : Line :=
  if c = '\n' then line + 1 else line

/-- A value together with the line it belongs to. -/
structure Located (α : Type) where
  line : Line
  value : α
  deriving DecidableEq, Repr

/-- The same line with another value. -/
def Located.map {α β : Type} (f : α → β) (x : Located α) : Located β :=
  ⟨x.line, f x.value⟩

@[simp]
theorem Located.line_map {α β : Type} (f : α → β) (x : Located α) : (x.map f).line = x.line := rfl

@[simp]
theorem Located.value_map {α β : Type} (f : α → β) (x : Located α) :
    (x.map f).value = f x.value := rfl

/-- A program text and the name it is known by, usually a path. -/
structure Source where
  name : String
  text : String

end PlZero
