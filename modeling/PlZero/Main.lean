import PlZero.CommandLine

/-!
# The program

The command, carried out by the operating system.
-/

namespace PlZero.CommandLine

/-- A message of the operating system with its number. -/
def numbered (details : String) (code : UInt32) : String :=
  details ++ " (os error " ++ Nat.repr code.toNat ++ ")"

/-- What the operating system says when something fails. -/
def systemMessage : IO.Error → String
  | .alreadyExists _ code details | .noFileOrDirectory _ code details
  | .noSuchThing _ code details | .permissionDenied _ code details
  | .inappropriateType _ code details | .invalidArgument _ code details
  | .resourceExhausted _ code details | .interrupted _ code details => numbered details code
  | .hardwareFault code details | .illegalOperation code details
  | .resourceBusy code details | .resourceVanished code details
  | .unsatisfiedConstraints code details | .unsupportedOperation code details
  | .timeExpired code details | .protocolError code details
  | .otherError code details => numbered details code
  | e => toString e

/-- What the operating system says about a file. -/
def FileError.ofSystem (e : IO.Error) : FileError := .other (systemMessage e)

/-- Carries out an interaction. -/
def Interaction.carryOut : Interaction → IO Response
  | .respond r => return r
  | .read path next => do
    let content ← (do (← IO.FS.Handle.mk path .read).readBinToEnd : IO ByteArray).toBaseIO
    (next ((content.map ByteArray.data).mapError .ofSystem)).carryOut
  | .write path job next => do
    match ← (IO.FS.Handle.mk path .write).toBaseIO with
    | .error e => (next (.error (.ofSystem e))).carryOut
    | .ok file =>
      let (failure?, sink) := job.runInto LimitedSink.unlimited
      match ← (do file.write ⟨sink.taken⟩; file.flush : IO Unit).toBaseIO with
      | .ok _ => (next (.ok failure?)).carryOut
      | .error e =>
        -- A file that cannot be written to takes nothing.
        let full := LimitedSink.empty (some 0) (.refuses (systemMessage e)) none
        let (failure?, _) := job.runInto full
        (next (.ok failure?)).carryOut

/-- The status that the system sees when the command breaks off. -/
def Exit.toSystem : Exit → UInt32
  | status n => n.toUInt32
  | abort => 134

end PlZero.CommandLine

open PlZero.CommandLine in
/-- Runs the command. -/
def main (arguments : List String) : IO UInt32 := do
  let response ← (interaction arguments).carryOut
  let output ← IO.getStdout
  output.write ⟨response.output⟩
  output.flush
  IO.eprint response.errors
  return response.exit.toSystem
