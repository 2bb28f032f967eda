import Whitespace.Proofs.Effect

/-!
# Walking over nodes

A `Walker` does what a machine does, on plain data, and is not bound to the nodes of a program: it
is given a *chart*, a function that tells what stands at a position.  The nodes of a program are a
chart whose positions are slots.  A source is a chart as well, whose positions are places: there a
walker executes the instructions where they stand, and looks for labels as it goes.

`step_walker` says that a machine is a walker over any chart in which the node it stands at is found
under some other number.

## Main definitions

* `Walker.step chart` — one step of a walker.
* `Walker.after chart n` — a walker after `n` steps.
* `Machine.after config program n` — a machine, and the streams, after `n` steps.
* `Machine.walker rename streams` — a machine seen as a walker, its slots renamed.
-/

namespace Whitespace

/-- What stands at each position. -/
abbrev Chart := Nat → Option Node

/-- The state of a walk. -/
structure Walker where
  world : World
  /-- The position of the node to be executed next. -/
  current : Nat
  state : State := .running

namespace Walker

/-- Executes the node at the current position and moves on. -/
def visit (w : Walker) (node : Node) : Except Fault State × Walker :=
  let site : Site := ⟨node.instruction, node.index⟩
  match node.instruction.effect node.next node.branch w.world with
  | (.error cause, world) => (.error ⟨cause, site⟩, ⟨world, w.current, .faulted⟩)
  | (.ok .halt, world) => (.ok .halted, ⟨world, w.current, .halted⟩)
  | (.ok (.branch position), world) => (.ok .running, ⟨world, position, .running⟩)
  | (.ok .next, world) =>
    match node.next with
    | some position => (.ok .running, ⟨world, position, .running⟩)
    | none => (.error ⟨.prematureEnd, site⟩, ⟨world, w.current, .faulted⟩)

/-- One step.  A walker that has halted or faulted stays as it is. -/
def step (chart : Chart) (w : Walker) : Except Fault State × Walker :=
  match w.state with
  | .running =>
    match chart w.current with
    | some node => w.visit node
    | none => (.error ⟨.inconsistent .noSuchSlot, none⟩, { w with state := .faulted })
  | state => (.ok state, w)

/-- A walker after some steps. -/
def after (chart : Chart) : Nat → Walker → Walker
  | 0, w => w
  | n + 1, w => after chart n (w.step chart).2

theorem after_succ (chart : Chart) (n : Nat) (w : Walker) :
    after chart (n + 1) w = ((after chart n w).step chart).2 := by
  induction n generalizing w with
  | zero => rfl
  | succ n ih => exact ih (w.step chart).2

theorem step_of_running {chart : Chart} {w : Walker} {node : Node} (running : w.state = .running)
    (stands : chart w.current = some node) : w.step chart = w.visit node := by
  simp only [step, running, stands]

theorem step_of_not_running (chart : Chart) {w : Walker} (stopped : w.state ≠ .running) :
    w.step chart = (.ok w.state, w) := by
  rw [step]
  split
  · next running => exact absurd running stopped
  · rfl

end Walker

namespace Machine

/-- A machine and its streams after some steps. -/
def after (config : Config) (program : Program) : Nat → Machine → Streams → Machine × Streams
  | 0, m, streams => (m, streams)
  | n + 1, m, streams =>
    let outcome := m.step config program streams
    after config program n outcome.machine outcome.streams

theorem after_succ (config : Config) (program : Program) (n : Nat) (m : Machine)
    (streams : Streams) :
    after config program (n + 1) m streams =
      let (m, streams) := after config program n m streams
      ((m.step config program streams).machine, (m.step config program streams).streams) := by
  induction n generalizing m streams with
  | zero => rfl
  | succ n ih => exact ih _ _

/-- A machine as a walker, its slots renamed. -/
def walker (rename : Nat → Nat) (m : Machine) (streams : Streams) : Walker where
  world := (⟨m.stack, m.calls, m.heap, streams⟩ : Workspace).world rename
  current := rename m.current
  state := m.state

/-- A machine saves what it saves as a walker, if slots keep their names. -/
@[simp] theorem walker_id_calls (m : Machine) (streams : Streams) :
    (m.walker id streams).world.calls = m.calls := by
  simp [walker, Workspace.world]

variable {rename : Nat → Nat} {m : Machine} {streams : Streams} {node : Node}

/-- Executing a node is visiting it. -/
theorem executeNode_walker (config : Config) (running : m.state = .running) :
    (m.walker rename streams).visit
        { node with next := node.next.map rename, branch := node.branch.map rename } =
      let outcome := m.executeNode config streams node
      (outcome.result, outcome.machine.walker rename outcome.streams) := by
  rcases m with ⟨stack, calls, heap, current, state, steps⟩
  obtain rfl : state = .running := running
  have effect := node.execute_effect rename ⟨stack, calls, heap, streams⟩
  simp only [Walker.visit, walker, executeNode, ← effect]
  rcases node.execute ⟨stack, calls, heap, streams⟩ with ⟨move, w⟩ | ⟨cause, w⟩
  · rcases move with _ | slot | _
    · simp only [turn, Move.rename]
      rcases node.next with _ | slot <;> rfl
    · rfl
    · rfl
  · rfl

/-- A machine that has halted or faulted stays as it is. -/
theorem step_of_not_running (config : Config) (program : Program) (streams : Streams)
    (stopped : m.state ≠ .running) :
    m.step config program streams = ⟨.ok m.state, m, streams, [], []⟩ := by
  rw [step]
  split
  · next running => exact absurd running stopped
  · rfl

/-- **A machine is a walker** over any chart that shows what stands at its slot, slots renamed. -/
theorem step_walker (config : Config) {program : Program} {chart : Chart}
    (stands : program.node? m.current = some node)
    (shown : chart (rename m.current) =
      some { node with next := node.next.map rename, branch := node.branch.map rename }) :
    (m.walker rename streams).step chart =
      let outcome := m.step config program streams
      (outcome.result, outcome.machine.walker rename outcome.streams) := by
  by_cases running : m.state = .running
  · rw [Walker.step_of_running (w := m.walker rename streams) running shown,
      executeNode_walker config running]
    simp only [step, running, stands]
  · rw [Walker.step_of_not_running chart (w := m.walker rename streams) running,
      step_of_not_running config program streams running]
    rfl

end Machine

end Whitespace
