import Whitespace.Heap
import Whitespace.Output
import Whitespace.Reading
import Whitespace.Stack

/-!
# What instructions work on

Executing an instruction reads and changes a `Workspace`: the operand stack, the continuations of
the calls, the heap and the streams.  `Action` is the monad of such effects.  An action that fails
keeps what it has done by then; the order of the effects of an instruction is therefore the order in
which its action is written.

The actions of this module are the effects that instructions are made of.
-/

namespace Whitespace

/-- The streams of a program; either may be missing. -/
structure Streams where
  input : Option Input := none
  output : Option Sink := none

/-- What instructions work on. -/
structure Workspace where
  stack : Stack := {}
  /-- Where the calls that have not returned will go on, innermost first; `none` for a call that has
  no node behind it. -/
  calls : List (Option Nat) := []
  heap : Heap := {}
  streams : Streams := {}

/-- An effect on a workspace, which may fail. -/
abbrev Action := EStateM Cause Workspace

namespace Action

/-! ## The stack and the calls -/

/-- Puts a word on the stack. -/
def push (word : Int64) : Action Unit := fun w =>
  .ok () { w with stack := w.stack.push word }

/-- Takes the top word. -/
def pop : Action Int64 := fun w =>
  match w.stack.peek? with
  | some word => .ok word { w with stack := w.stack.pop }
  | none => .error .stackUnderflow w

/-- The word at a depth, which stays where it is. -/
def peekAt (depth : Nat) : Action Int64 := fun w =>
  match w.stack.get? depth with
  | some word => .ok word w
  | none => .error .stackUnderflow w

/-- Takes as many words off the stack; there must be so many. -/
def drop (count : Nat) : Action Unit := fun w =>
  if w.stack.size < count then .error .stackUnderflow w
  else .ok () { w with stack := w.stack.drop count }

/-- A number operand that counts something: it must not be negative. -/
def natural (operand : Int64) : Action Nat :=
  if operand < 0 then throw (.invalidOperand operand) else pure operand.toNatClampNeg

/-- Notes where a call will go on. -/
def pushCall (continuation : Option Nat) : Action Unit := fun w =>
  .ok () { w with calls := continuation :: w.calls }

/-- Takes the continuation of the innermost call. -/
def popCall : Action (Option Nat) := fun w =>
  match w.calls with
  | continuation :: calls => .ok continuation { w with calls }
  | [] => .error .returnWithoutCall w

/-! ## The heap -/

/-- The word at an address. -/
def load (address : Int64) : Action Int64 := fun w =>
  .ok (w.heap.get address) w

/-- Writes the word at an address. -/
def store (address word : Int64) : Action Unit := fun w =>
  .ok () { w with heap := w.heap.set address word }

/-! ## The streams -/

/-- Fails unless there is an input stream. -/
def requireInput : Action Unit := fun w =>
  match w.streams.input with
  | some _ => .ok () w
  | none => .error (.noStream .input) w

/-- Fails unless there is an output stream. -/
def requireOutput : Action Unit := fun w =>
  match w.streams.output with
  | some _ => .ok () w
  | none => .error (.noStream .output) w

/-- Reads from the input stream. -/
def read {α : Type} (reading : Reading α) : Action α := fun w =>
  match w with
  | ⟨stack, calls, heap, ⟨some input, output⟩⟩ =>
    match reading input with
    | .ok a input => .ok a ⟨stack, calls, heap, ⟨some input, output⟩⟩
    | .error cause input => .error cause ⟨stack, calls, heap, ⟨some input, output⟩⟩
  | w => .error (.noStream .input) w

/-- Writes bytes to the output stream. -/
def write (bytes : ByteArray) : Action Unit := fun w =>
  match w with
  | ⟨stack, calls, heap, ⟨input, some sink⟩⟩ =>
    match sink.write bytes with
    | (none, sink) => .ok () ⟨stack, calls, heap, ⟨input, some sink⟩⟩
    | (some message, sink) => .error (.io message) ⟨stack, calls, heap, ⟨input, some sink⟩⟩
  | w => .error (.noStream .output) w

/-- Flushes the output stream, if there is one. -/
def flush : Action Unit := fun w =>
  match w with
  | ⟨stack, calls, heap, ⟨input, some sink⟩⟩ =>
    match sink.flush with
    | (none, sink) => .ok () ⟨stack, calls, heap, ⟨input, some sink⟩⟩
    | (some message, sink) => .error (.io message) ⟨stack, calls, heap, ⟨input, some sink⟩⟩
  | w => .ok () w

end Action

end Whitespace
