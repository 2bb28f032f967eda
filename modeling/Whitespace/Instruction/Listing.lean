import Whitespace.Instruction
import Whitespace.Text.Decimal

/-!
# Listings

A listing writes a program for a person, one instruction a line: its mnemonic and, after a space,
its operand.  Numbers are decimal and labels are written by their mnemonics.
-/

namespace Whitespace

/-- The word that stands for an opcode in a listing. -/
def Opcode.mnemonic : Opcode → String
  | number .push => "push"
  | number .copy => "copy"
  | number .slide => "slide"
  | plain .duplicate => "duplicate"
  | plain .swap => "swap"
  | plain .discard => "discard"
  | plain (.calculate .add) => "add"
  | plain (.calculate .subtract) => "subtract"
  | plain (.calculate .multiply) => "multiply"
  | plain (.calculate .divide) => "divide"
  | plain (.calculate .modulo) => "modulo"
  | plain .store => "store"
  | plain .load => "load"
  | label .define => "label"
  | label .call => "call"
  | label .jump => "jump"
  | label (.jumpIf .zero) => "jumpzero"
  | label (.jumpIf .negative) => "jumpminus"
  | plain .ret => "return"
  | plain .stop => "stop"
  | plain (.print .character) => "printchar"
  | plain (.print .number) => "printnumber"
  | plain (.read .character) => "readchar"
  | plain (.read .number) => "readnumber"

namespace Instruction

/-- The line of an instruction in a listing, without its end. -/
def listing (i : Instruction) : String :=
  match i with
  | number _ value => i.opcode.mnemonic ++ " " ++ Decimal.text value
  | label _ name => i.opcode.mnemonic ++ " " ++ name.mnemonic
  | plain _ => i.opcode.mnemonic

end Instruction

/-- The listing of a program: a line for each instruction, each closed by a line feed. -/
def listing (instructions : List Instruction) : String :=
  String.join (instructions.map fun i => i.listing ++ "\n")

end Whitespace
