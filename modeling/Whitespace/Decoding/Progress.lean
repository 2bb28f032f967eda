import Whitespace.Decoding.Error

/-!
# Reading one instruction

`Progress` is what has been read of an instruction, and `Progress.feed` takes it one token further.
A token either goes on with the instruction, finishes it, or is one that no instruction has at this
place; so a source is refused at the earliest token that rules every instruction out.
-/

namespace Whitespace

/-- What has been read of an instruction. -/
inductive Progress where
  /-- Tokens that begin a family's lead. -/
  | lead (read : List Token)
  /-- The lead of a family and tokens that begin one of its commands. -/
  | command (family : Family) (read : List Token)
  /-- The opcode of an instruction whose number comes next. -/
  | sign (op : NumberOp)
  /-- An opcode, the sign of its number and the magnitude of the digits so far. -/
  | digits (op : NumberOp) (negative : Bool) (magnitude : Int64)
  /-- An opcode and the tokens so far of its label. -/
  | name (op : LabelOp) (read : Array Token)
  deriving DecidableEq, Repr

namespace Progress

/-- Nothing has been read. -/
def start : Progress :=
  .lead []

/-- What one more token makes of an unfinished instruction. -/
inductive Advance where
  | more (progress : Progress)
  | complete (instruction : Instruction)
  | malformed (cause : DecodeError.Cause)
  deriving DecidableEq, Repr

/-- What follows an opcode: its operand, if it has one. -/
def ofOpcode : Opcode → Advance
  | .number op => .more (.sign op)
  | .label op => .more (.name op #[])
  | .plain op => .complete (.plain op)

/-- Reads one more token of an instruction. -/
def feed : Progress → Token → Advance
  | lead read, t =>
    let read := read ++ [t]
    match Family.ofLead? read with
    | some family => .more (.command family [])
    | none => .more (.lead read)
  | command family read, t =>
    let read := read ++ [t]
    match Opcode.ofCommand? family read with
    | some op => ofOpcode op
    | none =>
      if Opcode.continues family read then .more (.command family read)
      else .malformed (.unknownOpcode family t)
  | sign op, .space => .more (.digits op false 0)
  | sign op, .tab => .more (.digits op true 0)
  | sign _, .lineFeed => .malformed (.invalidSign .lineFeed)
  | digits op negative m, .space => .more (.digits op negative (Literal.shift m false))
  | digits op negative m, .tab => .more (.digits op negative (Literal.shift m true))
  | digits op negative m, .lineFeed => .complete (.number op (Literal.signed negative m))
  | name op read, .lineFeed => .complete (.label op (.ofTokens read.toList))
  | name op read, t => .more (.name op (read.push t))

/-- What is wrong if the source ends here; nothing between two instructions. -/
def unfinished? : Progress → Option DecodeError.Cause
  | lead [] => none
  | lead (_ :: _) => some (.incompleteOpcode none)
  | command family _ => some (.incompleteOpcode (some family))
  | sign _ => some (.unterminated .number)
  | digits _ _ _ => some (.unterminated .number)
  | name _ _ => some (.unterminated .label)

end Progress

end Whitespace
