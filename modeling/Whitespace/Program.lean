import Whitespace.Instruction

/-!
# Linked programs

A linked program is a row of nodes.  A node is an instruction that does something, with the slot of
the node that follows it and, for a call or a jump, the slot it leads to.  Label definitions have no
nodes.  Execution begins at `Program.entry`.
-/

namespace Whitespace

/-- One executable unit of a program. -/
structure Node where
  /-- The place of the instruction among those of the source, labels counted. -/
  index : Nat
  instruction : Instruction
  /-- The slot of the node after this one. -/
  next : Option Nat
  /-- The slot that a call or a jump leads to. -/
  branch : Option Nat
  deriving DecidableEq, Repr

/-- A linked program; a slot is a position in `nodes`. -/
structure Program where
  nodes : Array Node
  deriving DecidableEq, Repr

namespace Program

/-- The slot of the first node to be executed. -/
def entry (_ : Program) : Nat :=
  0

/-- The number of nodes. -/
def size (p : Program) : Nat :=
  p.nodes.size

def isEmpty (p : Program) : Bool :=
  p.nodes.isEmpty

/-- The node at a slot, if there is one. -/
def node? (p : Program) (slot : Nat) : Option Node :=
  p.nodes[slot]?

/-- The nodes met by following `next` from a slot, at most `limit` of them. -/
def follow (p : Program) : (limit : Nat) → Option Nat → List Node
  | 0, _ => []
  | _, none => []
  | limit + 1, some slot =>
    match p.node? slot with
    | none => []
    | some node => node :: p.follow limit node.next

/-- The nodes in the order of a run without branches; none of them is met twice. -/
def chain (p : Program) : List Node :=
  p.follow p.size (some p.entry)

end Program

end Whitespace
