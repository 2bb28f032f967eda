import Whitespace.Proofs.Runs

/-!
# Programs with other names

What a linked program says about its source is the labels that its instructions carry and the places
where they stand.  A machine looks at neither: it follows slots.  So a program whose labels and
places are given other names is executed in the same way, and only what is reported about it has the
other names (`Machine.step_rename`, `Machine.run_rename`).  Nothing is asked of the names here; two
labels may even get the same.

## Main definitions

* `Naming` — new names for labels and new places for instructions.
* `Naming.program r p` — a program with the new names.
* `Naming.outcome r o` — the outcome of a step, told with the new names.
* `Naming.RunsAlike r p p'` — two programs run alike, but for what is told of their source.
-/

namespace Whitespace

/-- New names for labels and new places for instructions. -/
structure Naming where
  label : Label → Label := id
  place : Nat → Nat := id

namespace Naming

variable (r : Naming)

/-- An instruction with the new names. -/
def instruction : Instruction → Instruction
  | .number op value => .number op value
  | .label op name => .label op (r.label name)
  | .plain op => .plain op

/-- A node with the new names; its slots stay. -/
def node (node : Node) : Node :=
  { node with index := r.place node.index, instruction := r.instruction node.instruction }

/-- A program with the new names. -/
def program (p : Program) : Program :=
  ⟨p.nodes.map r.node⟩

def site (site : Site) : Site :=
  ⟨r.instruction site.instruction, r.place site.index⟩

/-- A fault with the new names; its cause stays. -/
def fault (f : Fault) : Fault :=
  ⟨f.cause, f.site.map r.site⟩

/-- An event of a run with the new names. -/
def event : Event → Event
  | .executing i index stack depth => .executing (r.instruction i) (r.place index) stack depth
  | .faulted steps f => .faulted steps (r.fault f)
  | e => e

/-- The outcome of a step with the new names; the machine and the streams stay. -/
def outcome (o : Machine.Outcome) : Machine.Outcome :=
  ⟨o.result.mapError r.fault, o.machine, o.streams, o.before.map r.event, o.after.map r.event⟩

/-- What a run gives, with the new names. -/
def run (run : Machine.Run) : Machine.Run :=
  ⟨run.result.mapError r.fault, run.machine, run.streams, run.events.map r.event⟩

/-! ## Instructions and nodes -/

@[simp] theorem defined?_instruction (i : Instruction) :
    (r.instruction i).defined? = i.defined?.map r.label := by
  rcases i with op | ⟨op, name⟩ | op
  · rfl
  · cases op <;> rfl
  · rfl

@[simp] theorem target?_instruction (i : Instruction) :
    (r.instruction i).target? = i.target?.map r.label := by
  rcases i with op | ⟨op, name⟩ | op
  · rfl
  · cases op <;> rfl
  · rfl

@[simp] theorem isExecutable_instruction (i : Instruction) :
    (r.instruction i).isExecutable = i.isExecutable := by
  simp [Instruction.isExecutable]

@[simp] theorem node?_program (p : Program) (slot : Nat) :
    (r.program p).node? slot = (p.node? slot).map r.node := by
  simp [program, Program.node?]

/-- **A node does the same under another name.** -/
@[simp] theorem execute_node (node : Node) : (r.node node).execute = node.execute := by
  rw [Node.execute_eq, Node.execute_eq]
  rcases node with ⟨index, op | ⟨op, name⟩ | op, next, branch⟩
  · rfl
  · cases op <;> rfl
  · rfl

/-- Names given one after another. -/
theorem program_program {r r' : Naming} (back : ∀ node, r'.node (r.node node) = node)
    (p : Program) : r'.program (r.program p) = p := by
  have same : r'.node ∘ r.node = id := funext back
  simp [program, same]

/-- Names that leave all labels as they are. -/
theorem instruction_id {r : Naming} (labels : r.label = id) (i : Instruction) :
    r.instruction i = i := by
  cases i <;> simp [instruction, labels]

end Naming

namespace Machine

variable (r : Naming) (config : Config) (p : Program) (m : Machine) (streams : Streams)

/-! ## Steps -/

theorem trace_rename (node : Node) :
    m.trace config (r.node node) = (m.trace config node).map r.event := by
  rcases config with ⟨_ | _, _ | _⟩ <;> rfl

/-- Executing a node under another name. -/
theorem executeNode_rename (node : Node) :
    m.executeNode config streams (r.node node) = r.outcome (m.executeNode config streams node) := by
  rcases m with ⟨stack, calls, heap, current, state, steps⟩
  simp only [executeNode, Naming.execute_node, trace_rename]
  rcases node.execute ⟨stack, calls, heap, streams⟩ with ⟨move, w⟩ | ⟨cause, w⟩
  · cases move with
    | halt => rfl
    | branch slot => rfl
    | next => rcases node with ⟨index, instruction, _ | slot, branch⟩ <;> rfl
  · rfl

/-- **A step of a program with other names** is the same step, told with these names. -/
theorem step_rename :
    m.step config (r.program p) streams = r.outcome (m.step config p streams) := by
  by_cases running : m.state = .running
  · simp only [step, running, Naming.node?_program]
    cases p.node? m.current with
    | none => rfl
    | some node => exact executeNode_rename r config m streams node
  · rw [step_of_not_running config _ streams running, step_of_not_running config p streams running]
    rfl

/-- **Steps one after another** lead to the same machine and the same streams. -/
theorem after_rename (n : Nat) :
    after config (r.program p) n m streams = after config p n m streams := by
  induction n generalizing m streams with
  | zero => rfl
  | succ n ih =>
    rw [after, after, step_rename]
    exact ih _ _

/-- What the step behind them gives is told with these names. -/
theorem outcome_rename (n : Nat) :
    Machine.outcome config (r.program p) n m streams =
      r.outcome (Machine.outcome config p n m streams) := by
  rw [Machine.outcome, Machine.outcome, after_rename]
  exact step_rename r config p _ _

/-! ## Runs -/

theorem resume_rename (fuel : Nat) (events : Array Event) :
    resume config (r.program p) fuel m streams (events.map r.event) =
      (resume config p fuel m streams events).map r.run := by
  induction fuel generalizing m streams events with
  | zero => rfl
  | succ fuel ih =>
    have more : events.map r.event ++ (r.outcome (m.step config p streams)).events =
        (events ++ (m.step config p streams).events).map r.event := by
      apply Array.toList_inj.mp
      simp [Outcome.events, Naming.outcome]
    rw [resume, resume, step_rename, more]
    cases ended : (m.step config p streams).result with
    | error f =>
      simp only [Naming.outcome, ended]
      rfl
    | ok state =>
      cases state with
      | running =>
        simp only [Naming.outcome, ended]
        exact ih _ _ _
      | halted | faulted =>
        simp only [Naming.outcome, ended, Option.map_some, Naming.run, Array.map_push]
        rfl

/-- **A run of a program with other names** is the same run, told with these names. -/
theorem run_rename (fuel : Nat) :
    Machine.run fuel config (r.program p) streams =
      (Machine.run fuel config p streams).map r.run := by
  have same := resume_rename r config p (start p) streams fuel #[]
  rwa [Array.map_empty] at same

end Machine

/-- Two programs run alike, but for what is told of their source: steps leave the same machine and
the same streams, and they and whole runs return and report the same with the new names. -/
structure Naming.RunsAlike (r : Naming) (p p' : Program) : Prop where
  after : ∀ config n streams, Machine.after config p' n (Machine.start p') streams =
    Machine.after config p n (Machine.start p) streams
  outcome : ∀ config n streams, Machine.outcome config p' n (Machine.start p') streams =
    r.outcome (Machine.outcome config p n (Machine.start p) streams)
  run : ∀ config fuel streams, Machine.run fuel config p' streams =
    (Machine.run fuel config p streams).map r.run

/-- **A program runs like the same program with other names.** -/
theorem Naming.runsAlike (r : Naming) (p : Program) : r.RunsAlike p (r.program p) where
  after config n streams := Machine.after_rename r config p (Machine.start p) streams n
  outcome config n streams := Machine.outcome_rename r config p (Machine.start p) streams n
  run config fuel streams := Machine.run_rename r config p streams fuel

end Whitespace
