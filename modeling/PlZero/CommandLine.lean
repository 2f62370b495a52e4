import PlZero.CommandLine.Arguments
import PlZero.CommandLine.Path
import PlZero.Compiler
import PlZero.Listing

/-!
# The command

The command reads one file, compiles it or lists its tokens, and writes the result to the
standard output or to another file. What it does with files is an `Interaction`: a file is
read, then perhaps one is written, then there is a response. The same interaction can be
carried out in a file tree in memory or by the operating system.

What is written goes through a buffer, which is flushed at the end, whether the run has failed or
not (`Job.runInto`). So what a run has written by the time that it fails is kept.

Everything that can be wrong with the arguments or with the file that is read is found out
before the output is touched.

A run that is asked to be verbose tells about itself on the side. These lines hold the time of day;
they are left out, and so they are where they are asked for by the surroundings of the command.
-/

namespace PlZero.CommandLine

/-- Why a file cannot be read or written. -/
inductive FileError
  | notFound
  | notFolder
  | isFolder
  | nameTooLong
  | other (text : String)
  deriving DecidableEq, Repr

/-- The message of the operating system. -/
def FileError.message : FileError → String
  | notFound => "No such file or directory (os error 2)"
  | notFolder => "Not a directory (os error 20)"
  | isFolder => "Is a directory (os error 21)"
  | nameTooLong => "File name too long (os error 36)"
  | other text => text

/-- What is to be done with a program. -/
structure Job where
  source : Source
  tokensOnly : Bool

namespace Job

/-- Does the job into a sink. -/
def writeTo {σ : Type} [Sink σ] (j : Job) : EStateM (Located Failure) σ Unit :=
  if j.tokensOnly then listTokensInto j.source else compileInto j.source

/-- Does the job into a sink with a buffer in front of it: what has stopped it, and the sink. It
makes no difference whether the last flush succeeds. -/
def runInto {σ : Type} [Sink σ] (j : Job) (sink : σ) : Option (Located Failure) × σ :=
  match Buffered.through j.writeTo sink with
  | .ok _ sink => (none, sink)
  | .error f sink => (some f, sink)

end Job

/-- How the command ends: with a status, or by breaking off because of a defect. -/
inductive Exit
  | status (n : UInt8)
  | abort
  deriving DecidableEq, Repr

/-- What the command leaves behind besides files. -/
structure Response where
  exit : Exit
  output : Array UInt8
  errors : String
  deriving DecidableEq

/-- What the command does with files until it responds. -/
inductive Interaction
  | respond (r : Response)
  | read (path : String) (next : Except FileError (Array UInt8) → Interaction)
  /-- Does a job into a file, which is created or loses its old content, unless it cannot be opened.
  What comes back is what has stopped the job. -/
  | write (path : String) (job : Job)
    (next : Except FileError (Option (Located Failure)) → Interaction)

/-! ### Responses -/

/-- The text for a request for help. -/
def helpText : String :=
  "PL/0 to C translator\n" ++
  "\n" ++
  "Usage: pl0c [OPTIONS] <FILE>\n" ++
  "\n" ++
  "Arguments:\n" ++
  "  <FILE>  Source file, must end in '.pl0'\n" ++
  "\n" ++
  "Options:\n" ++
  "  -o, --output <FILE>  Output file ('-' for stdout) [default: -]\n" ++
  "      --tokens         List tokens instead of translating\n" ++
  "  -v, --verbose...     Increase logging verbosity (repeatable)\n" ++
  "  -h, --help           Print help\n" ++
  "  -V, --version        Print version\n"

/-- The text for a request for the version. -/
def versionText : String := "pl0c " ++ version ++ "\n"

namespace Response

/-- Succeeds with a text. -/
def info (text : String) : Response := ⟨.status 0, (Text.utf8 text).toArray, ""⟩

/-- Fails before anything is written. -/
def refuse (errors : String) : Response := ⟨.status 1, #[], errors⟩

/-- Fails because of a file. -/
def refuseFile (doing path reason : String) : Response :=
  refuse ("Error: " ++ doing ++ path ++ "\n\nCaused by:\n    " ++ reason ++ "\n")

/-- The response to a run that has gone as far as it could, with what it leaves on the
standard output. -/
def ofRun (sourceName : String) (failure? : Option (Located Failure)) (output : Array UInt8) :
    Response :=
  match failure? with
  | none => ⟨.status 0, output, ""⟩
  | some f => ⟨if f.value.isDefect then .abort else .status 1, output, Failure.report sourceName f⟩

end Response

/-! ### Running -/

/-- What the options ask to be done with a text. -/
def Options.job (o : Options) (text : String) : Job := ⟨⟨o.file, text⟩, o.tokensOnly⟩

/-- Writes the result of a run on a program. -/
def Options.finish (o : Options) (text : String) : Interaction :=
  let job := o.job text
  if o.output = standardOutput then
    let (failure?, sink) := job.runInto LimitedSink.unlimited
    .respond (.ofRun o.file failure? sink.taken)
  else
    .write o.output job fun
      | .ok failure? => .respond (.ofRun o.file failure? #[])
      | .error e => .respond (.refuseFile "Failed to open for writing: " o.output e.message)

/-- Reads the program and runs on it. -/
def Options.start (o : Options) : Interaction :=
  if extension? o.file = some "pl0" then
    .read o.file fun
      | .ok bytes =>
        match String.fromUTF8? ⟨bytes⟩ with
        | some text => o.finish text
        | none =>
          .respond (.refuseFile "Failed to read " o.file "stream did not contain valid UTF-8")
      | .error e => .respond (.refuseFile "Failed to read " o.file e.message)
  else .respond (.refuse ("Error: File must end in '.pl0': " ++ o.file ++ "\n"))

/-- What the command does when it is given the arguments, with a parser that says what they ask
for. -/
def interactionBy (parse : List String → Command) (arguments : List String) : Interaction :=
  match parse arguments with
  | .run o _ => o.start
  | .help => .respond (.info helpText)
  | .version => .respond (.info versionText)
  | .reject message => .respond (.refuse message)

/-- What the command does when it is given the arguments. -/
def interaction : List String → Interaction := interactionBy Command.ofArguments

end PlZero.CommandLine
