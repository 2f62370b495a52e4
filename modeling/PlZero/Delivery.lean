import PlZero.Failure

/-!
# Delivering what a run writes

The account of a run lists the pieces that it writes, in order, each with the line that is to
blame if the piece cannot be written, and says how the run ends.

A destination has room for some number of bytes, or for any number. It takes a piece that
does not fit as far as there is room and refuses the rest, which stops the delivery at the
line of that piece. What has been taken stays taken. Only a run that has finished, and all
of whose pieces have been taken, is flushed, once; the destination may refuse that as well.

A run does not hand in an account: it writes to a sink as it goes, and stops where the sink refuses
something (`compileInto`, `listTokensInto`). That this leaves in a sink with limited room what a
delivery of the account does is a theorem (`Account.WrittenBy.eq_result`).
-/

namespace PlZero

/-! ### Accounts -/

/-- The pieces that a run writes and how it ends: with a failure, or finished on some line. -/
structure Account where
  pieces : List (Located String)
  ending : Except (Located Failure) Line

namespace Account

/-- Everything that the run writes. -/
def text (a : Account) : String :=
  String.join (a.pieces.map Located.value)

/-- What stops the run, if anything does. -/
def failure? (a : Account) : Option (Located Failure) :=
  match a.ending with
  | .error f => some f
  | .ok _ => none

end Account

/-! ### Destinations -/

/-- Where the output of a run goes. -/
structure Destination where
  /-- How many bytes there is room for, if there is a limit. -/
  room? : Option Nat
  /-- The reason given for refusing bytes. -/
  refusal : String
  /-- The reason given for refusing to flush, if it is refused. -/
  flushRefusal? : Option String

/-- A destination that takes everything. -/
def Destination.unlimited : Destination := ⟨none, "", none⟩

/-- What has been delivered: the bytes taken, how often they have been flushed, and what
stopped the run. -/
structure Delivery where
  bytes : Array UInt8
  flushes : Nat
  failure? : Option (Located Failure)

namespace Delivery

/-- Nothing has been delivered. -/
def empty : Delivery := ⟨#[], 0, none⟩

/-- Delivers one more piece, unless the delivery has stopped. -/
def receive (dest : Destination) (d : Delivery) (piece : Located String) : Delivery :=
  if d.failure?.isSome then d
  else
    let bytes := Text.utf8 piece.value
    match dest.room? with
    | none => { d with bytes := d.bytes ++ bytes }
    | some room =>
      let left := room - d.bytes.size
      if bytes.length ≤ left then { d with bytes := d.bytes ++ bytes }
      else
        { d with
          bytes := d.bytes ++ bytes.take left
          failure? := some ⟨piece.line, .output dest.refusal⟩ }

/-- Flushes what has been delivered by a run that has finished on `line`. -/
def flush (dest : Destination) (d : Delivery) (line : Line) : Delivery :=
  { d with
    flushes := d.flushes + 1
    failure? := dest.flushRefusal?.map fun reason => ⟨line, .output reason⟩ }

/-- Closes a delivery all of whose pieces have been offered. -/
def close (dest : Destination) (d : Delivery) (ending : Except (Located Failure) Line) : Delivery :=
  if d.failure?.isSome then d
  else
    match ending with
    | .error f => { d with failure? := some f }
    | .ok line => d.flush dest line

end Delivery

/-- Delivers what a run writes. -/
def Account.deliver (a : Account) (dest : Destination) : Delivery :=
  (a.pieces.foldl (Delivery.receive dest) .empty).close dest a.ending

end PlZero
