/-!
# Output streams

A `Sink` takes the bytes a program prints.  Its `Device` decides which requests are refused: a write
may be cut short with a failure, and a flush may fail.  What has reached the sink so far is its
`Transcript`; the device may look at it, so that every rule that depends on the past (a limited
capacity, a failure of the third flush) is a device.
-/

namespace Whitespace

/-- What has reached a sink so far. -/
structure Transcript where
  /-- The bytes kept. -/
  written : ByteArray := .empty
  /-- How many writes were requested. -/
  writes : Nat := 0
  /-- How many flushes were requested. -/
  flushes : Nat := 0
  /-- The number of bytes kept at each flush that succeeded, the last first. -/
  flushedAt : List Nat := []

/-- How a sink answers requests. -/
structure Device where
  /-- `none` if the bytes are kept; else how many of them are, and the failure. -/
  refuseWrite : Transcript → ByteArray → Option (Nat × String)
  /-- `none` if the flush succeeds; else the failure. -/
  refuseFlush : Transcript → Option String

namespace Device

/-- Keeps everything. -/
def collecting : Device where
  refuseWrite _ _ := none
  refuseFlush _ := none

/-- Keeps the first `capacity` bytes of all and fails a write that brings more. -/
def limited (capacity : Nat) (message : String) : Device where
  refuseWrite past bytes :=
    let room := capacity - past.written.size
    if bytes.size ≤ room then none else some (room, message)
  refuseFlush _ := none

/-- Holds up to `capacity` bytes, of which it can deliver none: a flush fails if there are any, and
so does a write that brings more. -/
def undeliverable (capacity : Nat) (message : String) : Device where
  refuseWrite past bytes :=
    if past.written.size + bytes.size ≤ capacity then none else some (0, message)
  refuseFlush past := if past.written.isEmpty then none else some message

/-- Keeps everything and fails the given flush, counted from one. -/
def failingFlush (call : Nat) (message : String) : Device where
  refuseWrite _ _ := none
  refuseFlush past := if past.flushes + 1 = call then some message else none

end Device

/-- A destination of bytes. -/
structure Sink where
  device : Device := .collecting
  transcript : Transcript := {}

namespace Transcript

/-- A write that kept the given bytes. -/
def write (t : Transcript) (bytes : ByteArray) : Transcript :=
  { t with written := t.written ++ bytes, writes := t.writes + 1 }

/-- A flush that succeeded. -/
def flush (t : Transcript) : Transcript :=
  { t with flushes := t.flushes + 1, flushedAt := t.written.size :: t.flushedAt }

/-- A flush that failed. -/
def failFlush (t : Transcript) : Transcript :=
  { t with flushes := t.flushes + 1 }

end Transcript

namespace Sink

/-- The bytes kept so far. -/
def written (sink : Sink) : ByteArray :=
  sink.transcript.written

/-- Requests a write.  The failure is `none` if all the bytes are kept. -/
def write (sink : Sink) (bytes : ByteArray) : Option String × Sink :=
  match sink.device.refuseWrite sink.transcript bytes with
  | none => (none, { sink with transcript := sink.transcript.write bytes })
  | some (kept, message) =>
    (some message, { sink with transcript := sink.transcript.write (bytes.extract 0 kept) })

/-- Requests a flush.  The failure is `none` if it succeeds. -/
def flush (sink : Sink) : Option String × Sink :=
  match sink.device.refuseFlush sink.transcript with
  | none => (none, { sink with transcript := sink.transcript.flush })
  | some message => (some message, { sink with transcript := sink.transcript.failFlush })

end Sink

end Whitespace
