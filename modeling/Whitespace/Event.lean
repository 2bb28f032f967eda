import Whitespace.Fault

/-!
# Events

What is reported while a program is decoded, linked and run.  An event has a level, the part of the
library it comes from, a message and named values, and is written on one line.
-/

namespace Whitespace

/-- How important an event is. -/
inductive Level where
  | trace
  | debug
  | info
  | error
  deriving DecidableEq, Repr

/-- The word for a level. -/
def Level.name : Level → String
  | trace => "TRACE"
  | debug => "DEBUG"
  | info => "INFO"
  | error => "ERROR"

/-- Something that is reported. -/
inductive Event where
  /-- A source has been decoded. -/
  | decoded (instructions labels tokens : Nat)
  /-- The calls and jumps of a program have been resolved. -/
  | resolved (labels : Nat)
  /-- A program has been linked. -/
  | linked (nodes instructions : Nat)
  /-- A node is about to be executed. -/
  | executing (instruction : Instruction) (index : Nat) (stack : List Int64) (callDepth : Nat)
  /-- The cells of the heap that are not zero, before a node is executed. -/
  | heap (cells : List (Int64 × Int64))
  /-- A run has ended in a fault. -/
  | faulted (steps : Nat) (fault : Fault)
  /-- A run has reached its stop. -/
  | halted (steps : Nat)
  /-- The command has loaded a program. -/
  | loaded (source : String) (nodes : Nat)
  /-- The command has run its program to the stop. -/
  | finished (steps : Nat)
  /-- The command has failed. -/
  | failed (message : String)
  deriving DecidableEq, Repr

namespace Event

def level : Event → Level
  | executing .. | heap .. => .trace
  | decoded .. | resolved .. | linked .. | faulted .. | halted .. => .debug
  | loaded .. | finished .. => .info
  | failed .. => .error

/-- The part of the library that reports an event. -/
def target : Event → String
  | decoded .. => "wspace::parser"
  | resolved .. | linked .. => "wspace::linker"
  | executing .. | heap .. | faulted .. | halted .. => "wspace::vm"
  | loaded .. | finished .. | failed .. => "wspace"

/-- Words in brackets. -/
def showWords (words : List Int64) : String :=
  "[" ++ ", ".intercalate (words.map Decimal.text) ++ "]"

/-- Cells in braces, each with its address. -/
def showCells (cells : List (Int64 × Int64)) : String :=
  "\x7b" ++ ", ".intercalate (cells.map fun (a, w) => Decimal.text a ++ ": " ++ Decimal.text w)
    ++ "\x7d"

/-- The message of an event and its named values.  Elapsed times are not told. -/
def text : Event → String
  | decoded instructions labels tokens =>
    s!"decoded source instructions={instructions} labels={labels} tokens={tokens}"
  | resolved labels => s!"resolved branch targets labels={labels}"
  | linked nodes instructions => s!"linked program nodes={nodes} instructions={instructions}"
  | executing instruction index stack callDepth =>
    instruction.listing ++ s!" index={index} stack=" ++ showWords stack
      ++ s!" call_depth={callDepth}"
  | heap cells => "heap heap=" ++ showCells cells
  | faulted steps fault => s!"program faulted steps={steps} error=" ++ fault.message
  | halted steps => s!"program halted steps={steps}"
  | loaded source nodes => "loaded " ++ source ++ s!" instructions={nodes} elapsed=_"
  | finished steps => s!"program finished steps={steps} elapsed=_"
  | failed message => message

/-- The line of an event. -/
def line (e : Event) : String :=
  e.level.name ++ " " ++ e.target ++ ": " ++ e.text

/-- The line of an event behind its level set to the right of five columns. -/
def alignedLine (e : Event) : String :=
  "".pushn ' ' (5 - e.level.name.length) ++ e.line

end Event

end Whitespace
