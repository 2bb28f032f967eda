import Whitespace.Event
import Whitespace.Machine.Execute

/-!
# The machine

A `Machine` executes a linked program node by node.  `Machine.step` executes one node; a machine
that has halted or faulted stays as it is.  `Machine.run` starts afresh and steps until the machine
no longer runs.  A machine that has been used can be put back to the beginning, or run once more.

A configuration may ask for events before every step.  It has no other effect.
-/

namespace Whitespace

/-- Whether a machine goes on. -/
inductive State where
  | running
  | halted
  | faulted
  deriving DecidableEq, Repr

/-- Which events are reported before every step. -/
structure Config where
  /-- The node about to be executed. -/
  debug : Bool := false
  /-- The heap. -/
  debugHeap : Bool := false
  deriving DecidableEq, Repr

/-- The state of a run. -/
structure Machine where
  stack : Stack := {}
  calls : List (Option Nat) := []
  heap : Heap := {}
  /-- The slot of the node to be executed next. -/
  current : Nat := 0
  state : State := .running
  /-- How many nodes have been executed, one that faulted included. -/
  steps : Nat := 0

namespace Machine

/-- The machine at the beginning of a program. -/
def start (program : Program) : Machine where
  current := program.entry

/-- What a step gives. -/
structure Outcome where
  /-- The state reached, or the fault. -/
  result : Except Fault State
  machine : Machine
  streams : Streams
  /-- What was reported before the node was executed. -/
  before : List Event
  /-- What was reported behind it. -/
  after : List Event

/-- What was reported during a step. -/
def Outcome.events (o : Outcome) : List Event :=
  o.before ++ o.after

/-- What is reported before a node is executed. -/
def trace (config : Config) (m : Machine) (node : Node) : List Event :=
  (if config.debug then
    [.executing node.instruction node.index m.stack.toList m.calls.length]
  else []) ++
  (if config.debugHeap then [.heap m.heap.nonzero] else [])

/-- A step that faults. -/
def fault (m : Machine) (streams : Streams) (before : List Event) (f : Fault) : Outcome :=
  ⟨.error f, { m with state := .faulted }, streams, before, [.faulted m.steps f]⟩

/-- The machine that goes on from what an action has left of its workspace. -/
def ofWorkspace (w : Workspace) (current : Nat) (state : State) (steps : Nat) : Machine :=
  ⟨w.stack, w.calls, w.heap, current, state, steps⟩

/-- Executes a node: counts the step, carries out the effect and moves on. -/
def executeNode (config : Config) (m : Machine) (streams : Streams) (node : Node) : Outcome :=
  let before := m.trace config node
  let site : Site := ⟨node.instruction, node.index⟩
  let ⟨stack, calls, heap, current, state, steps⟩ := m
  match node.execute ⟨stack, calls, heap, streams⟩ with
  | .error cause w =>
    (ofWorkspace w current state (steps + 1)).fault w.streams before ⟨cause, site⟩
  | .ok move w =>
    match move with
    | .halt => ⟨.ok .halted, ofWorkspace w current .halted (steps + 1), w.streams, before, []⟩
    | .branch slot => ⟨.ok .running, ofWorkspace w slot state (steps + 1), w.streams, before, []⟩
    | .next =>
      match node.next with
      | some slot => ⟨.ok .running, ofWorkspace w slot state (steps + 1), w.streams, before, []⟩
      | none =>
        (ofWorkspace w current state (steps + 1)).fault w.streams before ⟨.prematureEnd, site⟩

/-- Executes one node of a program.  A machine that does not run does nothing. -/
def step (config : Config) (program : Program) (m : Machine) (streams : Streams) : Outcome :=
  match m.state with
  | .running =>
    match program.node? m.current with
    | some node => m.executeNode config streams node
    | none => m.fault streams [] ⟨.inconsistent .noSuchSlot, none⟩
  | state => ⟨.ok state, m, streams, [], []⟩

/-- Whether the next step reads input. -/
def reads (m : Machine) (program : Program) : Bool :=
  match (program.node? m.current).map Node.instruction with
  | some (.plain (.read _)) => true
  | _ => false

/-- What a run gives. -/
structure Run where
  result : Except Fault Unit
  machine : Machine
  streams : Streams
  events : Array Event

/-- Steps until the machine no longer runs, if that takes at most `fuel` steps. -/
def resume (config : Config) (program : Program) :
    (fuel : Nat) → Machine → Streams → Array Event → Option Run
  | 0, _, _, _ => none
  | fuel + 1, m, streams, events =>
    let outcome := m.step config program streams
    let events := events ++ outcome.events
    match outcome.result with
    | .ok .running => resume config program fuel outcome.machine outcome.streams events
    | .ok _ =>
      some ⟨.ok (), outcome.machine, outcome.streams,
        events.push (.halted outcome.machine.steps)⟩
    | .error f => some ⟨.error f, outcome.machine, outcome.streams, events⟩

/-- Runs a program from its beginning; `none` if that takes more than `fuel` steps. -/
def run (fuel : Nat) (config : Config) (program : Program) (streams : Streams) : Option Run :=
  resume config program fuel (start program) streams #[]

/-- The machine put back to the beginning of a program. -/
def reset (program : Program) (m : Machine) : Machine :=
  { m with
    stack := {}
    calls := []
    heap := {}
    current := program.entry
    state := .running
    steps := 0 }

/-- Runs a program from its beginning on a machine that may have been used before; `none` if that
takes more than `fuel` steps. -/
def rerun (fuel : Nat) (config : Config) (program : Program) (m : Machine) (streams : Streams) :
    Option Run :=
  resume config program fuel (m.reset program) streams #[]

end Machine

end Whitespace
