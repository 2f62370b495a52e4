import PlZero.Failure

/-!
# Sinks

What leaves the compiler goes into a sink. A sink that is offered bytes takes some of them, and
says how many, or it refuses them, and says why. So a text is written by offering what is left of it
again and again (`Sink.writeAll`). What has been taken stays taken. A sink may hold back what it has
taken until it is flushed.

Two sinks are given here: one in memory, which may run out of room (`LimitedSink`), and a buffer in
front of any other (`Buffered`).
-/

namespace PlZero

/-- Something that bytes can be written to. -/
class Sink (σ : Type) where
  /-- Takes some of the bytes, from the left, and says how many. -/
  write : List UInt8 → EStateM String σ Nat
  /-- Passes on what has been held back. -/
  flush : EStateM String σ Unit

namespace Sink

variable {σ : Type} [Sink σ]

/-- The reason for giving up on a sink that takes nothing of what it is offered. -/
def tookNothing : String := "failed to write whole buffer"

/-- Offers the bytes until all of them have been taken. -/
def writeAll (bytes : List UInt8) : EStateM String σ Unit :=
  match bytes with
  | [] => pure ()
  | b :: bs => do
    match ← write (b :: bs) with
    | 0 => throw tookNothing
    | n + 1 => writeAll (bs.drop n)
termination_by bytes.length
decreasing_by
  simp only [List.length_drop, List.length_cons]
  omega

/-- Writes the parts of a text, one after the other. -/
def writeParts : List String → EStateM String σ Unit
  | [] => pure ()
  | part :: parts => do
    writeAll (Text.utf8 part)
    writeParts parts

end Sink

/-- What a sink refuses stops a run, on the line that is to blame. -/
def blame {ω α : Type} (line : Line) (act : EStateM String ω α) : EStateM (Located Failure) ω α :=
  fun out =>
    match act out with
    | .ok a out => .ok a out
    | .error reason out => .error ⟨line, .output reason⟩ out

/-! ### Limited room -/

/-- What a sink says that has no room left. -/
inductive WhenFull
  /-- It refuses the bytes. -/
  | refuses (reason : String)
  /-- It says that it has taken none of them. -/
  | takesNothing
  deriving DecidableEq, Repr

/-- The reason for which writing to the full sink fails. -/
def WhenFull.reason : WhenFull → String
  | refuses reason => reason
  | takesNothing => Sink.tookNothing

/-- A sink in memory. Of what it is offered it takes as much as there is room for. -/
structure LimitedSink where
  /-- How many bytes there is room for, if there is a limit. -/
  room? : Option Nat
  whenFull : WhenFull
  /-- The reason given for refusing to flush, if it is refused. -/
  flushRefusal? : Option String
  taken : Array UInt8
  /-- How many bytes had been taken each time that it was flushed, or refused to be. -/
  flushedAt : List Nat
  deriving DecidableEq

namespace LimitedSink

/-- An empty sink. -/
def empty (room? : Option Nat) (whenFull : WhenFull) (flushRefusal? : Option String) :
    LimitedSink :=
  ⟨room?, whenFull, flushRefusal?, #[], []⟩

/-- An empty sink that takes everything. -/
def unlimited : LimitedSink := empty none (.refuses "") none

/-- How many of so many bytes there is room for. -/
def fitting (s : LimitedSink) (count : Nat) : Nat :=
  match s.room? with
  | none => count
  | some room => min count (room - s.taken.size)

/-- The sink with more bytes in it. -/
def add (s : LimitedSink) (bytes : List UInt8) : LimitedSink :=
  { s with taken := s.taken ++ bytes }

instance : Sink LimitedSink where
  write bytes s :=
    let n := s.fitting bytes.length
    if n = 0 ∧ bytes ≠ [] then
      match s.whenFull with
      | .refuses reason => .error reason s
      | .takesNothing => .ok 0 s
    else .ok n (s.add (bytes.take n))
  flush s :=
    let flushed := { s with flushedAt := s.flushedAt ++ [s.taken.size] }
    match s.flushRefusal? with
    | none => .ok () flushed
    | some reason => .error reason flushed

end LimitedSink

/-! ### Buffers -/

/-- A sink with a buffer in front of it, which collects what is written in small parts. -/
structure Buffered (σ : Type) where
  /-- What has been taken and not been passed on. -/
  pending : List UInt8
  inner : σ

namespace Buffered

variable {σ : Type} [Sink σ]

/-- How many bytes a buffer collects. -/
def capacity : Nat := 8192

/-- Passes on what the buffer holds. What the sink does not take stays in the buffer. -/
def passOn : Buffered σ → EStateM.Result String (Buffered σ) Unit
  | ⟨[], inner⟩ => .ok () ⟨[], inner⟩
  | ⟨byte :: bytes, inner⟩ =>
    match Sink.write (byte :: bytes) inner with
    | .ok 0 inner => .error "failed to write the buffered data" ⟨byte :: bytes, inner⟩
    | .ok (n + 1) inner => passOn ⟨bytes.drop n, inner⟩
    | .error reason inner => .error reason ⟨byte :: bytes, inner⟩
termination_by b => b.pending.length
decreasing_by
  simp only [List.length_drop, List.length_cons]
  omega

/-- Makes room for so many bytes. -/
def makeRoom (b : Buffered σ) (count : Nat) : EStateM.Result String (Buffered σ) Unit :=
  if b.pending.length + count ≤ capacity then .ok () b else b.passOn

/-- Bytes that do not fit into the whole buffer are passed on at once. -/
instance : Sink (Buffered σ) where
  write bytes b :=
    match b.makeRoom bytes.length with
    | .error reason b => .error reason b
    | .ok _ b =>
      if bytes.length < capacity then .ok bytes.length { b with pending := b.pending ++ bytes }
      else
        match Sink.write bytes b.inner with
        | .ok n inner => .ok n { b with inner }
        | .error reason inner => .error reason { b with inner }
  flush b :=
    match b.passOn with
    | .error reason b => .error reason b
    | .ok _ b =>
      match Sink.flush b.inner with
      | .ok _ inner => .ok () { b with inner }
      | .error reason inner => .error reason { b with inner }

/-- What becomes of the sink when the buffer is given up. It is flushed first, and no matter whether
that succeeds, what is left is passed on as far as the sink takes it. -/
def close (b : Buffered σ) : σ :=
  match Sink.flush b with
  | .ok _ b | .error _ b =>
    match b.passOn with
    | .ok _ b | .error _ b => b.inner

/-- Writes through a buffer, which is given up in the end, also if the writing fails. -/
def through {ε α : Type} (act : EStateM ε (Buffered σ) α) : EStateM ε σ α := fun inner =>
  match act ⟨[], inner⟩ with
  | .ok a b => .ok a b.close
  | .error e b => .error e b.close

end Buffered

end PlZero
