/-!
# Paths

A path is a sequence of parts between slashes. An empty part and the part `.` stand for the
place reached so far, and `..` for the folder above it. The extension of a path is that of
its last proper part: what stands behind the last dot of a name, unless nothing stands
before that dot.
-/

namespace PlZero.CommandLine

/-- The parts of a text between its slashes, the empty ones included. -/
def splitAtSlashes : List Char → List (List Char)
  | [] => [[]]
  | c :: cs =>
    if c = '/' then [] :: splitAtSlashes cs
    else
      match splitAtSlashes cs with
      | [] => [[c]]
      | part :: parts => (c :: part) :: parts

/-- The parts of a path. -/
def pathParts (path : String) : List String :=
  (splitAtSlashes path.toList).map String.ofList

/-- The name that a path ends with; `..` is no name. -/
def fileName? (path : String) : Option String :=
  match ((pathParts path).filter fun p => p ≠ "" && p ≠ ".").getLast? with
  | some ".." => none
  | last? => last?

/-- What stands behind the last dot of a name. -/
def nameExtension? (name : String) : Option String :=
  let backwards := name.toList.reverse
  match backwards.dropWhile (· ≠ '.') with
  | _ :: _ :: _ => some (String.ofList (backwards.takeWhile (· ≠ '.')).reverse)
  | _ => none

/-- The extension of a path. -/
def extension? (path : String) : Option String :=
  (fileName? path).bind nameExtension?

end PlZero.CommandLine
