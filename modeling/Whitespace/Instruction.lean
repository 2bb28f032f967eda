import Whitespace.Label

/-!
# Instructions

The twenty-four instructions of the language.  They differ in what they carry: a number (`push`,
`copy`, `slide`), a label (`label`, the call and the jumps) or nothing.  `Opcode` is an instruction
without its operand, and `Instruction` puts the operand back.

Instructions fall into five families, which is how they are spelled in a source
(`Whitespace.Instruction.Code`) and how error messages speak of them.
-/

namespace Whitespace

/-- The families that instructions fall into. -/
inductive Family where
  | stack
  | arithmetic
  | heap
  | flow
  | io
  deriving DecidableEq, Repr

/-- The arithmetic instructions. -/
inductive Calculation where
  | add
  | subtract
  | multiply
  | divide
  | modulo
  deriving DecidableEq, Repr

/-- When a conditional jump is taken. -/
inductive Condition where
  | zero
  | negative
  deriving DecidableEq, Repr

/-- How a value is printed or read: as a character or as a decimal number. -/
inductive Format where
  | character
  | number
  deriving DecidableEq, Repr

/-- The operations that carry a number. -/
inductive NumberOp where
  | push
  | copy
  | slide
  deriving DecidableEq, Repr

/-- The operations that carry a label.  `define` only names the place where it stands. -/
inductive LabelOp where
  | define
  | call
  | jump
  | jumpIf (condition : Condition)
  deriving DecidableEq, Repr

/-- The operations that carry nothing. -/
inductive PlainOp where
  | duplicate
  | swap
  | discard
  | calculate (calculation : Calculation)
  | store
  | load
  | ret
  | stop
  | print (format : Format)
  | read (format : Format)
  deriving DecidableEq, Repr

/-- An instruction without its operand. -/
inductive Opcode where
  | number (op : NumberOp)
  | label (op : LabelOp)
  | plain (op : PlainOp)
  deriving DecidableEq, Repr

/-- An instruction with its operand. -/
inductive Instruction where
  | number (op : NumberOp) (value : Int64)
  | label (op : LabelOp) (name : Label)
  | plain (op : PlainOp)
  deriving DecidableEq, Repr

namespace Opcode

/-- Every opcode, family by family. -/
def all : List Opcode :=
  [.number .push, .plain .duplicate, .number .copy, .plain .swap, .plain .discard, .number .slide,
   .plain (.calculate .add), .plain (.calculate .subtract), .plain (.calculate .multiply),
   .plain (.calculate .divide), .plain (.calculate .modulo),
   .plain .store, .plain .load,
   .label .define, .label .call, .label .jump, .label (.jumpIf .zero), .label (.jumpIf .negative),
   .plain .ret, .plain .stop,
   .plain (.print .character), .plain (.print .number),
   .plain (.read .character), .plain (.read .number)]

theorem mem_all (op : Opcode) : op ∈ all := by
  rcases op with op | op | op
  · cases op <;> decide
  · rcases op with _ | _ | _ | c
    · decide
    · decide
    · decide
    · cases c <;> decide
  · rcases op with _ | _ | _ | c | _ | _ | _ | _ | f | f
    · decide
    · decide
    · decide
    · cases c <;> decide
    · decide
    · decide
    · decide
    · decide
    · cases f <;> decide
    · cases f <;> decide

/-- The family an opcode belongs to. -/
def family : Opcode → Family
  | number _ => .stack
  | label _ => .flow
  | plain .duplicate | plain .swap | plain .discard => .stack
  | plain (.calculate _) => .arithmetic
  | plain .store | plain .load => .heap
  | plain .ret | plain .stop => .flow
  | plain (.print _) | plain (.read _) => .io

end Opcode

namespace Instruction

/-- The opcode of an instruction. -/
def opcode : Instruction → Opcode
  | number op _ => .number op
  | label op _ => .label op
  | plain op => .plain op

/-- The family an instruction belongs to. -/
def family (i : Instruction) : Family :=
  i.opcode.family

/-- The name that a label definition gives to its place. -/
def defined? : Instruction → Option Label
  | label .define name => some name
  | _ => none

/-- The label that a call or a jump refers to. -/
def target? : Instruction → Option Label
  | label .define _ => none
  | label _ name => some name
  | _ => none

/-- Whether an instruction does something when it is reached: all but label definitions do. -/
def isExecutable (i : Instruction) : Bool :=
  i.defined?.isNone

theorem defined?_eq_some_iff {i : Instruction} {name : Label} :
    i.defined? = some name ↔ i = .label .define name := by
  constructor
  · intro h
    rcases i with _ | ⟨op, other⟩ | _
    · cases h
    · cases op <;> cases h
      rfl
    · cases h
  · rintro rfl
    rfl

/-- Only label definitions do nothing. -/
theorem isExecutable_eq_false_iff {i : Instruction} :
    i.isExecutable = false ↔ ∃ name, i = .label .define name := by
  simp only [isExecutable, Option.isNone_eq_false_iff, Option.isSome_iff_exists,
    defined?_eq_some_iff]

/-- Calls and jumps refer to their labels. -/
theorem target?_eq_some_iff {i : Instruction} {name : Label} :
    i.target? = some name ↔ ∃ op, op ≠ .define ∧ i = .label op name := by
  constructor
  · intro h
    rcases i with _ | ⟨op, other⟩ | _
    · cases h
    · cases op with
      | define => cases h
      | call | jump | jumpIf condition =>
        cases h
        exact ⟨_, LabelOp.noConfusion, rfl⟩
    · cases h
  · rintro ⟨op, call, rfl⟩
    cases op with
    | define => exact absurd rfl call
    | call | jump | jumpIf condition => rfl

end Instruction

end Whitespace
