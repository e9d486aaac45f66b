import Lox.Text.Utf8

/-!
# Output

A program writes bytes to a sink, which may refuse some of them and says why. What was taken is
kept; a text is offered byte by byte up to the first that is refused.
-/

namespace Lox.Run

/-- What takes the output. It may refuse the byte or the flush with a given index, counted over all
that were offered, and then says why. -/
structure Sink where
  refuseByte : Nat → Option String
  refuseFlush : Nat → Option String

/-- A sink that takes everything. -/
def Sink.unlimited : Sink := ⟨fun _ => none, fun _ => none⟩

/-- A sink that takes the first bytes only, if there is a limit, and that may refuse to flush. -/
def Sink.limited (limit : Option Nat) (flushFails : Bool) : Sink where
  refuseByte index :=
    match limit with
    | some limit => if limit ≤ index then some "sink full" else none
    | none => none
  refuseFlush _ := if flushFails then some "flush failed" else none

/-- How many bytes and flushes a sink was offered, and the bytes that it took. -/
structure Output where
  offered : Nat
  flushes : Nat
  written : Array UInt8

/-- The output before anything is written. -/
def Output.start : Output := ⟨0, 0, #[]⟩

/-- The text that was written. -/
def Output.text (output : Output) : String :=
  Text.decodeLossy output.written.toList

/-- Offers bytes one by one, up to the first that is refused, and says why it was. -/
def Sink.offer (sink : Sink) : List UInt8 → Output → Option String × Output
  | [], output => (none, output)
  | byte :: rest, output =>
      match sink.refuseByte output.offered with
      | some message => (some message, { output with offered := output.offered + 1 })
      | none =>
          sink.offer rest
            { output with offered := output.offered + 1, written := output.written.push byte }

/-- Offers a flush, and says why it was refused. -/
def Sink.flush (sink : Sink) (output : Output) : Option String × Output :=
  (sink.refuseFlush output.flushes, { output with flushes := output.flushes + 1 })

end Lox.Run
