import ServerEntry.Text.Utf8

/-!
Writing a text to an output, and outputs that take a limited number of bytes.

A write may take only some of the bytes it is offered; what it leaves is offered again.  A text goes
out in pieces, and once the last of them is through the output is flushed.
-/

namespace ServerEntry

inductive WriteError where
  | brokenPipe
  | writeZero
  deriving DecidableEq, Repr

def WriteError.message : WriteError → String
  | brokenPipe => "broken pipe"
  | writeZero => "failed to write whole buffer"

/-- Takes bytes: a write answers how many of those offered were taken, from the first on. -/
class Output (τ : Type) where
  write : Bytes → τ → Except WriteError Nat × τ
  flush : τ → Except WriteError Unit × τ

namespace Output

variable {τ : Type} [Output τ]

/-- Offers bytes until none is left; an output that takes none of them will not take the rest. -/
def writeAll (bytes : Bytes) (out : τ) : Except WriteError Unit × τ :=
  match bytes with
  | [] => (.ok (), out)
  | byte :: rest =>
      match write (byte :: rest) out with
      | (.error failure, out) => (.error failure, out)
      | (.ok 0, out) => (.error .writeZero, out)
      | (.ok (more + 1), out) => writeAll (rest.drop more) out
termination_by bytes.length
decreasing_by
  simp only [List.length_drop, List.length_cons]
  omega

def writeEach : List String → τ → Except WriteError Unit × τ
  | [], out => (.ok (), out)
  | piece :: pieces, out =>
      match writeAll (Text.Utf8.encode piece) out with
      | (.ok (), out) => writeEach pieces out
      | (.error failure, out) => (.error failure, out)

def writeText (pieces : List String) (out : τ) : Except WriteError Unit × τ :=
  match writeEach pieces out with
  | (.ok (), out) => flush out
  | (.error failure, out) => (.error failure, out)

end Output

structure Sink where
  /-- How many bytes the sink takes in all; `none` for any number. -/
  capacity : Option Nat
  /-- What a writer gets from a sink with nothing left: a failure, or that it takes no byte. -/
  refusal : WriteError
  flushFails : Bool
  taken : Bytes
  deriving DecidableEq, Repr

namespace Sink

def unlimited : Sink := ⟨none, .brokenPipe, false, []⟩

def room? (sink : Sink) : Option Nat := sink.capacity.map (· - sink.taken.length)

/-- Takes as many of the bytes as there is room for. -/
def accept (bytes : Bytes) (sink : Sink) : Except WriteError Nat × Sink :=
  match sink.room? with
  | none => (.ok bytes.length, { sink with taken := sink.taken ++ bytes })
  | some 0 =>
      match sink.refusal with
      | .brokenPipe => (.error .brokenPipe, sink)
      | .writeZero => (.ok 0, sink)
  | some room =>
      (.ok (min room bytes.length), { sink with taken := sink.taken ++ bytes.take room })

def flush (sink : Sink) : Except WriteError Unit :=
  if sink.flushFails then .error .brokenPipe else .ok ()

instance : Output Sink where
  write := accept
  flush sink := (sink.flush, sink)

def writeText (sink : Sink) (pieces : List String) : Except WriteError Unit × Sink :=
  Output.writeText pieces sink

end Sink

end ServerEntry
