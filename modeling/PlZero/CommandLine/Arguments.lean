/-!
# Arguments of the command line

The command takes one file and a few options. Options have a long name, `--output`, and most
of them a letter as well, `-o`; letters may be grouped behind one dash. The value of an
option follows it, behind `=` in the same argument or as an argument of its own that does
not look like an option. After `--` nothing is an option.

Arguments are taken from left to right (`Given.take`), and the first one that cannot be
accepted, or that asks for help or the version, decides.

This is the part of a general parser for command lines that the options of this command come to:
which arguments it accepts, and what they are taken for. Left out is how it words a refusal
(`refusal`), and with it the hints that it gives. What the command does with the arguments is the
same with any other parser (`interactionBy`).
-/

namespace PlZero.CommandLine

/-- What to compile, where to write it, and whether to list the tokens instead. -/
structure Options where
  file : String
  output : String
  tokensOnly : Bool
  deriving DecidableEq, Repr

/-- What the arguments ask for. -/
inductive Command
  /-- The verbosity says how much is to be told about a run besides what it comes to. -/
  | run (o : Options) (verbosity : Nat)
  | help
  | version
  /-- The arguments make no sense, for which there is a message. -/
  | reject (message : String)
  deriving DecidableEq, Repr

/-- What is said about arguments that make no sense, whatever is wrong with them. -/
def refusal : String := "usage error"

/-- The output that stands for the standard output. -/
def standardOutput : String := "-"

/-- What the arguments so far have given. -/
structure Given where
  file? : Option String
  output? : Option String
  tokensOnly : Bool
  verbosity : Nat
  /-- Whether the next argument is the value for the output. -/
  awaitsOutput : Bool
  deriving DecidableEq, Repr

namespace Given

/-- Refuses the arguments. -/
def reject {α : Type} : Except Command α := .error (.reject refusal)

/-- No argument has been taken. -/
def nothing : Given := ⟨none, none, false, 0, false⟩

/-- Takes the file, which may be given once. -/
def takeFile (g : Given) (file : String) : Except Command Given :=
  if g.file?.isSome then reject else .ok { g with file? := some file }

/-- Takes the output, which may be given once. -/
def takeOutput (g : Given) (output : String) : Except Command Given :=
  if g.output?.isSome then reject
  else .ok { g with output? := some output, awaitsOutput := false }

/-- Takes an option by its long name, with the value behind `=` if there is one. -/
def takeLong (g : Given) (name : String) (value? : Option String) : Except Command Given :=
  match name, value? with
  | "output", none => .ok { g with awaitsOutput := true }
  | "output", some value => g.takeOutput value
  | "tokens", none => if g.tokensOnly then reject else .ok { g with tokensOnly := true }
  | "verbose", none => .ok { g with verbosity := g.verbosity + 1 }
  | "help", none => .error .help
  | "version", none => .error .version
  | _, _ => reject

/-- Takes a group of letters. The letter with a value takes the rest of its group for it. -/
def takeLetters (g : Given) : List Char → Except Command Given
  | [] => .ok g
  | 'o' :: [] => .ok { g with awaitsOutput := true }
  | 'o' :: '=' :: value => g.takeOutput (String.ofList value)
  | 'o' :: value => g.takeOutput (String.ofList value)
  | 'v' :: letters => takeLetters { g with verbosity := g.verbosity + 1 } letters
  | 'h' :: _ => .error .help
  | 'V' :: _ => .error .version
  | _ => reject

/-- Takes one argument in front of `--`. -/
def take (g : Given) (argument : String) : Except Command Given :=
  match argument.toList with
  | '-' :: c :: cs =>
    if g.awaitsOutput then reject
    else if c = '-' then
      let name := cs.takeWhile (· ≠ '=')
      match cs.dropWhile (· ≠ '=') with
      | [] => g.takeLong (String.ofList name) none
      | _ :: value => g.takeLong (String.ofList name) (some (String.ofList value))
    else g.takeLetters (c :: cs)
  | _ => if g.awaitsOutput then g.takeOutput argument else g.takeFile argument

/-- The command when there are no more arguments. -/
def finish (g : Given) : Command :=
  match g.file? with
  | some file =>
    if g.awaitsOutput then .reject refusal
    else .run ⟨file, g.output?.getD standardOutput, g.tokensOnly⟩ g.verbosity
  | none => .reject refusal

/-- Takes the arguments behind `--`, all of which are files. -/
def takeFiles (g : Given) : List String → Command
  | [] => g.finish
  | a :: rest =>
    match g.takeFile a with
    | .ok g' => g'.takeFiles rest
    | .error c => c

/-- Takes all arguments. -/
def takeAll (g : Given) : List String → Command
  | [] => g.finish
  | a :: rest =>
    if a = "--" then
      if g.awaitsOutput then .reject refusal else g.takeFiles rest
    else
      match g.take a with
      | .ok g' => g'.takeAll rest
      | .error c => c

end Given

/-- The command that the arguments ask for. -/
def Command.ofArguments (arguments : List String) : Command :=
  Given.nothing.takeAll arguments

end PlZero.CommandLine
