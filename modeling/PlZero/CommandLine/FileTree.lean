import PlZero.CommandLine

/-!
# File trees in memory

A `FileTree` is what the command finds when it looks for files: folders, files and devices
at their places, and the folder that it works in. Paths are followed part by part as the
operating system does (`FileTree.follow`): a part may only follow a folder.

`Interaction.runIn` carries out an interaction in a file tree.
-/

namespace PlZero.CommandLine

/-- Where something is: the names on the way to it from the root. -/
abbrev Place := List String

/-- What can be written to and is neither a file nor a folder. -/
inductive Device
  /-- Takes everything and keeps nothing. -/
  | null
  /-- Never has room. -/
  | full
  | standardOutput
  | standardError
  /-- A terminal that nobody sits at. -/
  | terminal
  deriving DecidableEq, Repr

/-- Why a device cannot be used. -/
def Device.error? : Device → Option FileError
  | terminal => some (.other "No such device or address (os error 6)")
  | _ => none

/-- What is found at a place. -/
inductive Entry
  | folder
  | file (content : Array UInt8)
  | device (dev : Device)
  deriving DecidableEq

/-- What there is, and the folder that relative paths start from. -/
structure FileTree where
  here : Place
  /-- Folders that only the system puts something into. -/
  closed : List Place
  entries : List (Place × Entry)

namespace FileTree

/-! ### Looking at places -/

/-- Whether a place lies on the way to the working folder or to an entry, which makes it a
folder. -/
def isOnTheWay (t : FileTree) (p : Place) : Bool :=
  p.isPrefixOf t.here || t.entries.any fun e => e.1 ≠ p && p.isPrefixOf e.1

/-- What is found at a place. -/
def entry? (t : FileTree) (p : Place) : Option Entry :=
  if t.isOnTheWay p then some .folder else (t.entries.find? fun e => e.1 = p).map Prod.snd

/-- The content of the file at a place. -/
def file? (t : FileTree) (p : Place) : Option (Array UInt8) :=
  match t.entry? p with
  | some (.file content) => some content
  | _ => none

/-- The files directly in the working folder, by name. -/
def filesHere (t : FileTree) : List (String × Array UInt8) :=
  t.entries.filterMap fun
    | (p, .file content) => if p.dropLast = t.here then p.getLast?.map (·, content) else none
    | _ => none

/-! ### Following paths -/

/-- The most bytes that a name has. -/
def maxNameSize : Nat := 255

/-- The most bytes that a path has. -/
def maxPathSize : Nat := 4095

/-- Follows the parts of a path from a place on. There need not be anything at the end. The
folder above the root is the root. -/
def follow (t : FileTree) (p : Place) : List String → Except FileError Place
  | [] => .ok p
  | part :: parts =>
    match t.entry? p with
    | some .folder =>
      if part = "" || part = "." then t.follow p parts
      else if part = ".." then t.follow p.dropLast parts
      else if (Text.utf8 part).length ≤ maxNameSize then t.follow (p ++ [part]) parts
      else .error .nameTooLong
    | some _ => .error .notFolder
    | none => .error .notFound

/-- Where a path starts, and its parts from there on. The empty path does not start
anywhere. -/
def start (t : FileTree) (path : String) : Except FileError (Place × List String) :=
  if (Text.utf8 path).length ≤ maxPathSize then
    match pathParts path with
    | [] | [""] => .error .notFound
    | "" :: parts => .ok ([], parts)
    | parts => .ok (t.here, parts)
  else .error .nameTooLong

/-! ### Reading and writing -/

/-- The content of the file that a path leads to. A device has none. -/
def read (t : FileTree) (path : String) : Except FileError (Array UInt8) := do
  let (p, parts) ← t.start path
  let p ← t.follow p parts
  match t.entry? p with
  | some .folder => throw .isFolder
  | some (.file content) => return content
  | some (.device dev) => dev.error?.elim (return #[]) throw
  | none => throw .notFound

/-- The place that is written to by a path. A path that ends with a slash names a folder,
even if there is none yet, in the folder that the rest of it leads to. -/
def target (t : FileTree) (path : String) : Except FileError Place := do
  let (p, parts) ← t.start path
  let named := (parts.reverse.dropWhile (· = "")).reverse
  if named ≠ parts then
    let _ ← t.follow p (named.dropLast ++ ["."])
    throw .isFolder
  let p ← t.follow p parts
  match t.entry? p with
  | some .folder => throw .isFolder
  | some (.file _) => return p
  | some (.device dev) => dev.error?.elim (return p) throw
  | none => if t.closed.any (·.isPrefixOf p) then throw .notFound else return p

/-- Puts content into the file at a place. -/
def put (t : FileTree) (p : Place) (content : Array UInt8) : FileTree :=
  if t.entries.any fun e => e.1 = p then
    { t with entries := t.entries.map fun e => if e.1 = p then (p, .file content) else e }
  else { t with entries := t.entries ++ [(p, .file content)] }

end FileTree

namespace Device

/-- The sink that a device is. -/
def sink : Device → LimitedSink
  | full => .empty (some 0) (.refuses "No space left on device (os error 28)") none
  | _ => .unlimited

/-- The response, with what a device shows of the output of a run. -/
def addTo (dev : Device) (output : Array UInt8) (r : Response) : Response :=
  match dev with
  | standardOutput => { r with output := output ++ r.output }
  | standardError => { r with errors := (String.fromUTF8? ⟨output⟩).getD "" ++ r.errors }
  | _ => r

end Device

/-- Carries out an interaction in a file tree. -/
def Interaction.runIn (t : FileTree) : Interaction → Response × FileTree
  | .respond r => (r, t)
  | .read path next => (next (t.read path)).runIn t
  | .write path job next =>
    match t.target path with
    | .error e => (next (.error e)).runIn t
    | .ok p =>
      match t.entry? p with
      | some (.device dev) =>
        let (failure?, sink) := job.runInto dev.sink
        let (r, t) := (next (.ok failure?)).runIn t
        (dev.addTo sink.taken r, t)
      | _ =>
        let (failure?, sink) := job.runInto LimitedSink.unlimited
        (next (.ok failure?)).runIn (t.put p sink.taken)

end PlZero.CommandLine
