import Whitespace.Machine.Workspace
import Whitespace.Program
import Whitespace.Reading.Character
import Whitespace.Reading.Number

/-!
# What instructions do

`Node.execute` is the effect of a node and where it leads: on to the next node, to a branch slot, or
nowhere, at `stop`.  The family of the instruction carries it out.  Each family handles its own
instructions, which are all that it is ever given (`Node.execute_eq`).

Operands are checked in a fixed order, which shows in what a failed instruction leaves behind.  A
missing stream is noticed before anything is taken from the stack, and so is a negative number
operand.  An instruction with two operands takes the right one first.  Reading takes its address,
flushes the output and then reads.
-/

namespace Whitespace

/-- Where an executed node leads. -/
inductive Move where
  | next
  | branch (slot : Nat)
  | halt
  deriving DecidableEq, Repr

/-- The result of a calculation, in 64-bit arithmetic that wraps; division truncates toward zero. -/
def Calculation.apply (calculation : Calculation) (left right : Int64) : Except Cause Int64 :=
  match calculation with
  | .add => .ok (left + right)
  | .subtract => .ok (left - right)
  | .multiply => .ok (left * right)
  | .divide => if right = 0 then .error .divideByZero else .ok (left / right)
  | .modulo => if right = 0 then .error .divideByZero else .ok (left % right)

/-- Whether a jump is taken on a word. -/
def Condition.holds (condition : Condition) (word : Int64) : Bool :=
  match condition with
  | .zero => word == 0
  | .negative => word < 0

/-- The character that a word is the code of. -/
def character? (word : Int64) : Option Char :=
  let code := word.toInt.toNat
  if 0 ≤ word ∧ code.isValidChar then some (Char.ofNat code) else none

/-- The text that printing a word gives. -/
def Format.print (format : Format) (word : Int64) : Except Cause (List Char) :=
  match format with
  | .number => .ok (Decimal.render word.toInt)
  | .character =>
    match character? word with
    | some c => .ok [c]
    | none => .error (.invalidCharacter word)

/-- Reads a word in the given format. -/
def Format.reading (format : Format) : Reading Int64 :=
  match format with
  | .number => Reading.number
  | .character => do return Int64.ofNat (← Reading.character).toNat

namespace NumberOp

/-- The effect of an instruction with a number. -/
def execute (op : NumberOp) (operand : Int64) : Action Move :=
  match op with
  | push => do
    Action.push operand
    return .next
  | copy => do
    let depth ← Action.natural operand
    Action.push (← Action.peekAt depth)
    return .next
  | slide => do
    let count ← Action.natural operand
    let top ← Action.pop
    Action.drop count
    Action.push top
    return .next

end NumberOp

namespace LabelOp

/-- The branch slot of a call or a jump. -/
def branch (node : Node) : Action Move :=
  match node.branch with
  | some slot => pure (.branch slot)
  | none => throw (.inconsistent .unresolvedBranch)

/-- The effect of an instruction with a label. -/
def execute (op : LabelOp) (node : Node) : Action Move :=
  match op with
  | define => throw (.inconsistent .labelReached)
  | call => do
    let move ← branch node
    Action.pushCall node.next
    return move
  | jump => branch node
  | jumpIf condition => do
    if condition.holds (← Action.pop) then branch node else return .next

end LabelOp

namespace PlainOp

/-- The effect of an instruction without operand. -/
def execute (op : PlainOp) : Action Move :=
  match op with
  | duplicate => do
    Action.push (← Action.peekAt 0)
    return .next
  | swap => do
    let top ← Action.pop
    let below ← Action.pop
    Action.push top
    Action.push below
    return .next
  | discard => do
    let _ ← Action.pop
    return .next
  | calculate calculation => do
    let right ← Action.pop
    let left ← Action.pop
    match calculation.apply left right with
    | .ok word => Action.push word
    | .error cause => throw cause
    return .next
  | store => do
    let word ← Action.pop
    let address ← Action.pop
    Action.store address word
    return .next
  | load => do
    let address ← Action.pop
    Action.push (← Action.load address)
    return .next
  | ret => do
    match ← Action.popCall with
    | some slot => return .branch slot
    | none => throw .prematureEnd
  | stop => do
    Action.flush
    return .halt
  | print format => do
    Action.requireOutput
    match format.print (← Action.pop) with
    | .ok text => Action.write (Utf8.encode text)
    | .error cause => throw cause
    return .next
  | read format => do
    Action.requireInput
    let address ← Action.pop
    Action.flush
    Action.store address (← Action.read format.reading)
    return .next

end PlainOp

/-- What a family makes of a node.  It refuses the instructions of other families; the arithmetic
family looks at the instruction when it has taken the operands. -/
def Family.execute (family : Family) (node : Node) : Action Move :=
  match family, node.instruction with
  | .stack, .number op operand => op.execute operand
  | .stack, .plain .duplicate => PlainOp.duplicate.execute
  | .stack, .plain .swap => PlainOp.swap.execute
  | .stack, .plain .discard => PlainOp.discard.execute
  | .arithmetic, .plain (.calculate calculation) => (PlainOp.calculate calculation).execute
  | .arithmetic, _ => do
    let _ ← Action.pop
    let _ ← Action.pop
    throw (.inconsistent (.notOfFamily .arithmetic))
  | .heap, .plain .store => PlainOp.store.execute
  | .heap, .plain .load => PlainOp.load.execute
  | .flow, .label op _ => op.execute node
  | .flow, .plain .ret => PlainOp.ret.execute
  | .flow, .plain .stop => PlainOp.stop.execute
  | .io, .plain (.print format) => (PlainOp.print format).execute
  | .io, .plain (.read format) => (PlainOp.read format).execute
  | family, _ => throw (.inconsistent (.notOfFamily family))

/-- The effect of a node and where it leads. -/
def Node.execute (node : Node) : Action Move :=
  node.instruction.family.execute node

/-- An instruction is handled by the family it belongs to. -/
theorem Node.execute_eq (node : Node) :
    node.execute =
      match node.instruction with
      | .number op operand => op.execute operand
      | .label op _ => op.execute node
      | .plain op => op.execute := by
  rcases node with ⟨index, op | op | op, next, branch⟩
  · rfl
  · rfl
  · cases op <;> rfl

end Whitespace
