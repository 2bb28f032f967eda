import Whitespace.Program

/-!
# Linking

`link` turns the instructions of a source into a program: label definitions are dropped and every
call and jump gets the slot of the first node behind its label.

Labels are looked at first, in the order of the source.  A label must not be defined twice and must
have a node behind it.  Then the calls and jumps are looked at, in the same order; each must name a
label that is defined.
-/

namespace Whitespace

/-- Why instructions cannot be linked.  An `index` is a place among the instructions. -/
inductive LinkError where
  | emptyProgram
  | duplicateLabel (label : Label) (index : Nat)
  | labelToNothing (label : Label) (index : Nat)
  | undefinedLabel (label : Label) (index : Nat)
  deriving DecidableEq, Repr

/-- The text for a linking error. -/
def LinkError.message : LinkError → String
  | emptyProgram => "program contains no instructions"
  | duplicateLabel label index =>
    "label '" ++ label.mnemonic ++ "' is defined again at instruction " ++ toString index
  | labelToNothing label index =>
    "label '" ++ label.mnemonic ++ "' at instruction " ++ toString index
      ++ " is not followed by any instruction"
  | undefinedLabel label index =>
    "instruction " ++ toString index ++ " refers to undefined label '" ++ label.mnemonic ++ "'"

/-- Labels with the slots they lead to, the last definition first. -/
abbrev LabelTable := List (Label × Nat)

/-- A linked program and the counts that are reported about it. -/
structure Linking where
  program : Program
  /-- How many labels are defined. -/
  labels : Nat
  /-- How many instructions there were, labels counted. -/
  instructions : Nat
  deriving DecidableEq, Repr

namespace Linking

/-- How many of the instructions get a node. -/
def nodeCount (instructions : List Instruction) : Nat :=
  instructions.countP Instruction.isExecutable

/-- Takes up the label definitions among some instructions, the first of which has the given index;
`slot` counts the nodes before it and `total` those of the whole program. -/
def collectLabels (total : Nat) (index slot : Nat) (table : LabelTable) :
    List Instruction → Except LinkError LabelTable
  | [] => .ok table
  | i :: rest =>
    match i.defined? with
    | none => collectLabels total (index + 1) (slot + 1) table rest
    | some label =>
      if (table.lookup label).isSome then .error (.duplicateLabel label index)
      else if slot = total then .error (.labelToNothing label index)
      else collectLabels total (index + 1) slot ((label, slot) :: table) rest

/-- The branch slot of an instruction: none unless it is a call or a jump. -/
def branch (table : LabelTable) (index : Nat) (i : Instruction) : Except LinkError (Option Nat) :=
  match i.target? with
  | none => .ok none
  | some label =>
    match table.lookup label with
    | some slot => .ok (some slot)
    | none => .error (.undefinedLabel label index)

/-- Adds the nodes of some instructions, the first of which has the given index. -/
def addNodes (total : Nat) (table : LabelTable) (index : Nat) (nodes : Array Node) :
    List Instruction → Except LinkError (Array Node)
  | [] => .ok nodes
  | i :: rest =>
    if i.isExecutable then
      match branch table index i with
      | .error e => .error e
      | .ok branch =>
        let slot := nodes.size
        let next := if slot + 1 < total then some (slot + 1) else none
        addNodes total table (index + 1) (nodes.push ⟨index, i, next, branch⟩) rest
    else
      addNodes total table (index + 1) nodes rest

end Linking

/-- Links the instructions of a source. -/
def link (instructions : List Instruction) : Except LinkError Linking := do
  if instructions.isEmpty then
    throw .emptyProgram
  let total := Linking.nodeCount instructions
  let table ← Linking.collectLabels total 0 0 [] instructions
  let nodes ← Linking.addNodes total table 0 #[] instructions
  return ⟨⟨nodes⟩, table.length, instructions.length⟩

end Whitespace
