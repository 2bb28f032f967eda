import Whitespace.Instruction.Listing
import Whitespace.Text.Quoted

/-!
# Faults

A fault ends a run.  `Cause` says what went wrong, and `Fault` adds the instruction that was being
executed.  Each has one text, `message`.
-/

namespace Whitespace

/-- The two streams of a program. -/
inductive Direction where
  | input
  | output
  deriving DecidableEq, Repr

/-- What messages call a stream. -/
def Direction.name : Direction → String
  | input => "input"
  | output => "output"

/-- How a program or a machine that linking did not produce may be unfit to run. -/
inductive Flaw where
  /-- A label definition stands among the nodes. -/
  | labelReached
  /-- A call or jump has no branch slot. -/
  | unresolvedBranch
  /-- The machine stands at a slot that the program does not have. -/
  | noSuchSlot
  /-- A family was given an instruction of another family. -/
  | notOfFamily (family : Family)
  deriving DecidableEq, Repr

/-- The text for a flaw. -/
def Flaw.message : Flaw → String
  | labelReached => "label left in linked program"
  | unresolvedBranch => "unresolved branch target"
  | noSuchSlot => "no such slot"
  | notOfFamily .stack => "not a stack instruction"
  | notOfFamily .arithmetic => "not an arithmetic instruction"
  | notOfFamily .heap => "not a heap instruction"
  | notOfFamily .flow => "not a flow control instruction"
  | notOfFamily .io => "not an i/o instruction"

/-- Why an instruction cannot be completed. -/
inductive Cause where
  | stackUnderflow
  | divideByZero
  | returnWithoutCall
  | noStream (stream : Direction)
  | malformedNumber (token : List Char)
  | endOfInput
  | prematureEnd
  | invalidOperand (value : Int64)
  | invalidCharacter (value : Int64)
  | inconsistent (flaw : Flaw)
  | io (message : String)
  deriving DecidableEq, Repr

/-- The text for a cause. -/
def Cause.message : Cause → String
  | stackUnderflow => "stack underflow"
  | divideByZero => "division by zero"
  | returnWithoutCall => "return without a matching call"
  | noStream stream => "no " ++ stream.name ++ " stream attached"
  | malformedNumber token => "input " ++ Quoted.quote token ++ " is not a decimal integer"
  | endOfInput => "read past the end of the input"
  | prematureEnd => "program ended without reaching stop"
  | invalidOperand value => "operand " ++ Decimal.text value ++ " is out of range"
  | invalidCharacter value => Decimal.text value ++ " is not a printable character"
  | inconsistent flaw => "inconsistent program state: " ++ flaw.message
  | io message => "i/o error: " ++ message

/-- An instruction and its place among the instructions of the source, labels counted. -/
structure Site where
  instruction : Instruction
  index : Nat
  deriving DecidableEq, Repr

/-- What ended a run, and where.  There is no site only if the machine stood at no node. -/
structure Fault where
  cause : Cause
  site : Option Site
  deriving DecidableEq, Repr

/-- The text for a fault. -/
def Fault.message (fault : Fault) : String :=
  match fault.site with
  | none => fault.cause.message
  | some site =>
    fault.cause.message ++ " while executing `" ++ site.instruction.listing ++ "` (instruction "
      ++ toString site.index ++ ")"

end Whitespace
