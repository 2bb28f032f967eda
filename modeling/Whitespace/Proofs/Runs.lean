import Whitespace.Proofs.Frame
import Whitespace.Proofs.Journal

/-!
# Where runs end and what they report

A run takes one step after another up to the first that does not go on (`exists_outcome_of_resume`).
What such a step returns shows in the state of the machine: it has halted if the run succeeds, and
faulted if the run fails (`settled_step`, `state_of_resume`).

Each step reports what the configuration asks for, and then its fault, if it has one.  The first
part is all that a configuration adds (`step_config`): with any other one, a machine takes the same
steps.

## Main definitions

* `Machine.outcome config program n m streams` — what the step behind `n` others gives.
* `Machine.log config program n m streams` — what is reported during the next `n` steps.
* `Machine.Outcome.close` — the run that ends with a step.
* `Machine.FaultsAt config program n m streams f` — the run fails with the step behind `n` others.
-/

namespace Whitespace.Machine

/-- What the step behind some others gives. -/
def outcome (config : Config) (program : Program) (n : Nat) (m : Machine) (streams : Streams) :
    Outcome :=
  let now := after config program n m streams
  now.1.step config program now.2

/-- What is reported during the next steps. -/
def log (config : Config) (program : Program) : Nat → Machine → Streams → List Event
  | 0, _, _ => []
  | n + 1, m, streams =>
    let outcome := m.step config program streams
    outcome.events ++ log config program n outcome.machine outcome.streams

/-- The run that ends with a step, with all that has been reported by then. -/
def Outcome.close (o : Outcome) (events : Array Event) : Run :=
  match o.result with
  | .ok _ => ⟨.ok (), o.machine, o.streams, events.push (.halted o.machine.steps)⟩
  | .error f => ⟨.error f, o.machine, o.streams, events⟩

/-- The step behind some others faults, and this is the end. -/
structure FaultsAt (config : Config) (program : Program) (n : Nat) (m : Machine)
    (streams : Streams) (f : Fault) : Prop where
  result : (outcome config program n m streams).result = .error f
  after : ∀ k, n < k → after config program k m streams =
    ((outcome config program n m streams).machine, (outcome config program n m streams).streams)
  resume : ∀ fuel, n < fuel → ∀ events, ∃ events',
    resume config program fuel m streams events =
      some ⟨.error f, (outcome config program n m streams).machine,
        (outcome config program n m streams).streams, events'⟩

variable {config : Config} {program : Program} {m : Machine} {streams : Streams} {node : Node}

/-! ## Single steps -/

/-- The step that executes a node and fails, leaving a workspace behind. -/
def failing (config : Config) (m : Machine) (node : Node) (cause : Cause) (w : Workspace) :
    Outcome :=
  let f : Fault := ⟨cause, some ⟨node.instruction, node.index⟩⟩
  ⟨.error f, ofWorkspace w m.current .faulted (m.steps + 1), w.streams, m.trace config node,
    [.faulted (m.steps + 1) f]⟩

/-- The step that executes a node and goes to a slot, leaving a workspace behind. -/
def going (config : Config) (m : Machine) (node : Node) (slot : Nat) (w : Workspace) : Outcome :=
  ⟨.ok .running, ofWorkspace w slot .running (m.steps + 1), w.streams, m.trace config node, []⟩

/-- The step that executes a node and halts, leaving a workspace behind. -/
def halting (config : Config) (m : Machine) (node : Node) (w : Workspace) : Outcome :=
  ⟨.ok .halted, ofWorkspace w m.current .halted (m.steps + 1), w.streams, m.trace config node, []⟩

/-- **What a step that executes a node comes to**, by what the instruction comes to. -/
theorem Executes.step_eq (executes : m.Executes program node) (config : Config)
    (streams : Streams) :
    m.step config program streams =
      match node.execute (m.workspace streams) with
      | .error cause w => failing config m node cause w
      | .ok .halt w => halting config m node w
      | .ok (.branch slot) w => going config m node slot w
      | .ok .next w =>
        match node.next with
        | some slot => going config m node slot w
        | none => failing config m node .prematureEnd w := by
  simp only [step, executes.running, executes.stands]
  have running := executes.running
  rcases m with ⟨stack, calls, heap, current, state, steps⟩
  obtain rfl : state = .running := running
  simp only [executeNode, workspace]
  rcases node.execute ⟨stack, calls, heap, streams⟩ with ⟨move, w⟩ | ⟨cause, w⟩
  · cases move with
    | halt => rfl
    | branch slot => rfl
    | next => cases node.next <;> rfl
  · rfl

/-- **What a step returns is where it leaves the machine**, and the step reports its fault. -/
theorem settled_step (config : Config) (program : Program) (streams : Streams)
    (running : m.state = .running) :
    let o := m.step config program streams
    match o.result with
    | .ok state => o.machine.state = state ∧ state ≠ .faulted ∧ o.after = []
    | .error f => o.machine.state = .faulted ∧ o.after = [.faulted o.machine.steps f] := by
  cases stands : program.node? m.current with
  | none =>
    simp only [step, running, stands]
    exact ⟨rfl, rfl⟩
  | some node =>
    have executes : m.Executes program node := ⟨running, stands⟩
    rw [executes.step_eq config streams]
    rcases node.execute (m.workspace streams) with ⟨move, w⟩ | ⟨cause, w⟩
    · cases move with
      | halt => exact ⟨rfl, State.noConfusion, rfl⟩
      | branch slot => exact ⟨rfl, State.noConfusion, rfl⟩
      | next =>
        cases node.next with
        | some slot => exact ⟨rfl, State.noConfusion, rfl⟩
        | none => exact ⟨rfl, rfl⟩
    · exact ⟨rfl, rfl⟩

/-- A node that is executed is counted. -/
theorem Executes.steps (executes : m.Executes program node) (config : Config) (streams : Streams) :
    (m.step config program streams).machine.steps = m.steps + 1 := by
  rw [executes.step_eq]
  rcases node.execute (m.workspace streams) with ⟨move, w⟩ | ⟨cause, w⟩
  · cases move with
    | halt => rfl
    | branch slot => rfl
    | next => cases node.next <;> rfl
  · rfl

/-- The fault of a step that executes a node names the node. -/
theorem Executes.site {f : Fault} (executes : m.Executes program node)
    (failed : (m.step config program streams).result = .error f) :
    f.site = some ⟨node.instruction, node.index⟩ := by
  rw [executes.step_eq] at failed
  split at failed
  · cases failed
    rfl
  · cases failed
  · cases failed
  · split at failed
    · cases failed
    · cases failed
      rfl

/-- **A node that fails** leaves what its instruction has done by then, and the machine faulted. -/
theorem Executes.step_of_error {cause : Cause} {w : Workspace}
    (executes : m.Executes program node)
    (failed : node.execute (m.workspace streams) = .error cause w) (config : Config) :
    m.step config program streams =
      let f : Fault := ⟨cause, some ⟨node.instruction, node.index⟩⟩
      ⟨.error f, ofWorkspace w m.current .faulted (m.steps + 1), w.streams, m.trace config node,
        [.faulted (m.steps + 1) f]⟩ := by
  rw [executes.step_eq, failed]
  rfl

/-- The words of a machine, the top first. -/
theorem walker_stack (m : Machine) (streams : Streams) :
    (m.walker id streams).world.stack = m.stack.toList.reverse := rfl

/-- A step leaves the words that the effect of its node leaves. -/
theorem Executes.words (executes : m.Executes program node) (streams : Streams) (config : Config) :
    (m.step config program streams).machine.stack.toList =
      (node.instruction.effect node.next node.branch
        (m.walker id streams).world).2.stack.reverse := by
  rw [← Walker.visit_world, executes.visit streams config]
  simp [walker, Workspace.world]

section Words

variable {w : World} {stack : List Int64}

/-- A step whose effect goes on with a stack leaves that stack. -/
theorem Executes.step_proceed (executes : m.Executes program node) (config : Config)
    (goes_on : node.instruction.effect node.next node.branch (m.walker id streams).world =
      w.proceed stack) :
    (m.step config program streams).result = onward node ∧
      (m.step config program streams).machine.stack.toList = stack.reverse := by
  constructor
  · exact result_of_next executes config (by rw [goes_on, World.proceed_fst])
  · rw [executes.words, goes_on]
    rfl

/-- A step whose effect refuses leaves the stack that the effect leaves. -/
theorem Executes.step_refuse (executes : m.Executes program node) (config : Config) {cause : Cause}
    (refuses : node.instruction.effect node.next node.branch (m.walker id streams).world =
      w.refuse stack cause) :
    (m.step config program streams).result =
        .error ⟨cause, some ⟨node.instruction, node.index⟩⟩ ∧
      (m.step config program streams).machine.stack.toList = stack.reverse := by
  constructor
  · exact result_of_error executes config (by rw [refuses, World.refuse_fst])
  · rw [executes.words, refuses]
    rfl

end Words

/-- **What a configuration adds to a step** is reported before the node is executed. -/
theorem step_config (config : Config) (program : Program) (m : Machine) (streams : Streams) :
    m.step config program streams =
      { m.step {} program streams with
        before := (m.next? program).elim [] (m.trace config) } := by
  by_cases running : m.state = .running
  · cases stands : program.node? m.current with
    | none =>
      simp only [step, next?, running, stands]
      rfl
    | some node =>
      have executes : m.Executes program node := ⟨running, stands⟩
      rw [next?_eq_some_iff.mpr executes, executes.step_eq config, executes.step_eq {}]
      rcases node.execute (m.workspace streams) with ⟨move, w⟩ | ⟨cause, w⟩
      · cases move with
        | halt => rfl
        | branch slot => rfl
        | next => cases node.next <;> rfl
      · rfl
  · rw [step_of_not_running config program streams running,
      step_of_not_running {} program streams running, next?, if_neg running]
    rfl

/-! ## Steps one after another -/

/-- Some steps and then some more. -/
theorem after_add (config : Config) (program : Program) (i j : Nat) (m : Machine)
    (streams : Streams) :
    after config program (i + j) m streams =
      after config program j (after config program i m streams).1
        (after config program i m streams).2 := by
  induction i generalizing m streams with
  | zero =>
    rw [Nat.zero_add]
    rfl
  | succ i ih =>
    rw [Nat.succ_add]
    exact ih _ _

/-- A machine that has halted or faulted stays as it is, and so do the streams. -/
theorem after_of_stopped (config : Config) (program : Program) (streams : Streams)
    (stopped : m.state ≠ .running) (n : Nat) :
    after config program n m streams = (m, streams) := by
  induction n with
  | zero => rfl
  | succ n ih =>
    rw [after, step_of_not_running config program streams stopped]
    exact ih

/-- **Steps do not depend on the configuration.** -/
theorem after_config (config : Config) (program : Program) (n : Nat) (m : Machine)
    (streams : Streams) :
    after config program n m streams = after {} program n m streams := by
  induction n generalizing m streams with
  | zero => rfl
  | succ n ih =>
    rw [after, after, step_config]
    exact ih _ _

theorem results_config (config : Config) (program : Program) (n : Nat) (m : Machine)
    (streams : Streams) :
    results config program n m streams = results {} program n m streams := by
  induction n generalizing m streams with
  | zero => rfl
  | succ n ih =>
    rw [results, results, step_config]
    exact congrArg _ (ih _ _)

/-! ## Runs -/

/-- **A run ends with the first step that does not go on**, and has reported what its steps have. -/
theorem exists_outcome_of_resume {fuel : Nat} {events : Array Event} {r : Run}
    (h : resume config program fuel m streams events = some r) :
    ∃ n, (outcome config program n m streams).result ≠ .ok .running ∧
      r = (outcome config program n m streams).close
        (events ++ log config program (n + 1) m streams) := by
  induction fuel generalizing m streams events with
  | zero => cases h
  | succ fuel ih =>
    rw [resume] at h
    cases ended : (m.step config program streams).result with
    | error f =>
      simp only [ended] at h
      cases h
      refine ⟨0, ?_, ?_⟩
      · simp [outcome, after, ended]
      · simp [outcome, after, log, Outcome.close, ended]
    | ok state =>
      cases state with
      | running =>
        simp only [ended] at h
        obtain ⟨n, stopped, rfl⟩ := ih h
        refine ⟨n + 1, stopped, congrArg _ ?_⟩
        apply Array.toList_inj.mp
        simp [log]
      | halted | faulted =>
        simp only [ended] at h
        cases h
        refine ⟨0, ?_, ?_⟩
        · simp [outcome, after, ended]
        · simp [outcome, after, log, Outcome.close, ended]

/-- **A run goes on as long as its machine does.** -/
theorem resume_of_running {n : Nat}
    (running : (after config program n m streams).1.state = .running) (fuel : Nat)
    (events : Array Event) :
    resume config program (n + fuel) m streams events =
      resume config program fuel (after config program n m streams).1
        (after config program n m streams).2 (events ++ log config program n m streams) := by
  induction n generalizing m streams events with
  | zero =>
    rw [Nat.zero_add]
    simp [after, log]
  | succ n ih =>
    have before : m.state = .running := by
      by_contra stopped
      rw [after_of_stopped config program streams stopped] at running
      exact stopped running
    have settled := settled_step config program streams before
    have goes_on : (m.step config program streams).machine.state = .running := by
      by_contra stopped
      rw [after, after_of_stopped config program _ stopped] at running
      exact stopped running
    rw [Nat.succ_add, resume]
    cases ended : (m.step config program streams).result with
    | error f =>
      simp only [ended] at settled
      rw [settled.1] at goes_on
      cases goes_on
    | ok state =>
      simp only [ended] at settled
      obtain rfl : state = .running := settled.1.symm.trans goes_on
      refine (ih running _).trans ?_
      simp only [after, log]
      congr 1
      apply Array.toList_inj.mp
      simp

/-- **A step that faults is the last**: nothing changes behind it, and a run ends with it. -/
theorem faultsAt_of_result {n : Nat} {f : Fault}
    (running : (after config program n m streams).1.state = .running)
    (failed : (outcome config program n m streams).result = .error f) :
    FaultsAt config program n m streams f where
  result := failed
  after k later := by
    obtain ⟨d, rfl⟩ := Nat.exists_eq_add_of_le (Nat.succ_le_of_lt later)
    have settled := settled_step config program (after config program n m streams).2 running
    have failed' := failed
    rw [outcome] at failed'
    simp only [failed'] at settled
    have stopped : (outcome config program n m streams).machine.state ≠ .running := by
      rw [outcome, settled.1]
      exact State.noConfusion
    rw [after_add, after_succ]
    exact after_of_stopped config program _ stopped d
  resume fuel enough events := by
    obtain ⟨rest, rfl⟩ : ∃ rest, fuel = n + (rest + 1) := ⟨fuel - n - 1, by omega⟩
    rw [resume_of_running running, Machine.resume]
    rw [outcome] at failed ⊢
    simp only [failed]
    exact ⟨_, rfl⟩

/-- **A run succeeds exactly if its machine halts**, and fails exactly if it faults. -/
theorem state_of_resume {fuel : Nat} {events : Array Event} {r : Run} (running : m.state = .running)
    (h : resume config program fuel m streams events = some r) :
    (r.result = .ok () ↔ r.machine.state = .halted) ∧
      ((∃ f, r.result = .error f) ↔ r.machine.state = .faulted) := by
  induction fuel generalizing m streams events with
  | zero => cases h
  | succ fuel ih =>
    have settled := settled_step config program streams running
    rw [resume] at h
    cases ended : (m.step config program streams).result with
    | error f =>
      simp only [ended] at h settled
      cases h
      simp [settled.1]
    | ok state =>
      simp only [ended] at settled
      obtain ⟨same, no_fault, -⟩ := settled
      cases state with
      | running =>
        simp only [ended] at h
        exact ih same h
      | halted =>
        simp only [ended] at h
        cases h
        simp [same]
      | faulted => exact absurd rfl no_fault

end Whitespace.Machine
