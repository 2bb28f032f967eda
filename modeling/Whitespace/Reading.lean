import Whitespace.Fault
import Whitespace.Input

/-!
# Reading from a stream

`Reading` is the monad of operations on one input stream.  An operation may fail; the bytes that it
has read by then stay read.
-/

namespace Whitespace

/-- The operations on an input stream. -/
abbrev Reading := EStateM Cause Input

namespace Reading

/-- Reads the bytes that satisfy a condition; a failure of the stream is thrown. -/
def takeWhile (p : UInt8 → Bool) : Reading (List UInt8) := fun input =>
  let span := input.span p
  match span.stop with
  | .failure message => .error (.io message) span.rest
  | _ => .ok span.taken span.rest

/-- The next byte, not read; `none` at the end of the stream, or at a pause. -/
def peek : Reading (Option UInt8) := fun input =>
  let span := input.span fun _ => false
  match span.stop with
  | .failure message => .error (.io message) span.rest
  | .byte b => .ok (some b) span.rest
  | .finished | .pause => .ok none span.rest

/-- Reads the byte that `peek` has shown. -/
def advance : Reading Unit := fun input =>
  .ok () input.advance

end Reading

end Whitespace
