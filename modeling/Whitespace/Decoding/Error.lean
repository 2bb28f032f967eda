import Whitespace.Instruction.Code
import Whitespace.Text.Quoted

/-!
# Decoding errors

Why a source is no program, and where: how many tokens and how many bytes had been read, and the
tokens of the instruction that could not be finished, the offending one included.
-/

namespace Whitespace

/-- The kinds of operand a source spells. -/
inductive Operand where
  | number
  | label
  deriving DecidableEq, Repr

/-- What messages call an operand. -/
def Operand.name : Operand → String
  | number => "number"
  | label => "label"

namespace DecodeError

/-- What is wrong with a source. -/
inductive Cause where
  /-- The source ends inside an opcode; the family is known unless a lone tab was read. -/
  | incompleteOpcode (family : Option Family)
  /-- No command of the family continues with this token. -/
  | unknownOpcode (family : Family) (found : Token)
  /-- A number begins with a token that is no sign. -/
  | invalidSign (found : Token)
  /-- The source ends inside an operand. -/
  | unterminated (operand : Operand)
  /-- A label is defined that has been defined before. -/
  | duplicateLabel (label : Label)
  /-- The source cannot be read on. -/
  | io (message : String)
  deriving DecidableEq, Repr

/-- The text for a cause. -/
def Cause.message : Cause → String
  | incompleteOpcode none => "source ended inside the opcode of an instruction"
  | incompleteOpcode (some family) =>
    "source ended inside the opcode of a " ++ family.name ++ " instruction"
  | unknownOpcode family found =>
    "unknown " ++ family.name ++ " opcode, did not expect " ++ found.quoted
  | invalidSign found =>
    "number literal must start with a sign (space or tab), got " ++ found.quoted
  | unterminated operand => operand.name ++ " literal is missing its terminating line feed"
  | duplicateLabel label =>
    "label " ++ Quoted.quote label.mnemonic.toList ++ " is defined more than once"
  | io message => "failed to read source: " ++ message

end DecodeError

/-- Why and where decoding fails. -/
structure DecodeError where
  cause : DecodeError.Cause
  /-- How many tokens had been read. -/
  position : Nat
  /-- How many bytes had been read, comments included. -/
  offset : Nat
  /-- The tokens read of the instruction that failed. -/
  context : List Token
  deriving DecidableEq, Repr

/-- The text for a decoding error. -/
def DecodeError.message (e : DecodeError) : String :=
  e.cause.message ++ " at position " ++ toString e.position ++ " (byte " ++ toString e.offset
    ++ "), instruction so far: `" ++ visible e.context ++ "`"

end Whitespace
