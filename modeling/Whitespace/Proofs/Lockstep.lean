import Whitespace.Proofs.Runs

/-!
# Runs on other streams

Let the streams of a machine be replaced.  Most instructions do not notice: they have the same
effect and leave the other streams alone, whatever these are (`Node.execute_blind`).  Only prints,
reads and the stop need a closer look; what they do with the streams is spelled out in
`PlainOp.execute_print`, `PlainOp.execute_read` and `PlainOp.execute_stop`.

As long as no instruction notices, two runs stay in lockstep: the machines are the same, they return
and report the same, and the one's streams are the other's, replaced (`Machine.after_via`,
`Machine.resume_via`).

## Main definitions

* `Streams.withInput f s`, `Streams.withOutput f s` — the streams with one of them replaced.
* `Workspace.via g w`, `Machine.Outcome.via g o`, `Machine.Run.via g r` — the streams replaced by
  `g`, and nothing else.
* `Action.Blind x` — the action does not notice what the streams are.
* `Machine.StepsAlike g config program now` — with its streams replaced, a machine takes the same
  step.
-/

namespace Whitespace

/-- The streams with their input replaced. -/
def Streams.withInput (f : Option Input → Option Input) (s : Streams) : Streams :=
  { s with input := f s.input }

/-- The streams with their output replaced. -/
def Streams.withOutput (f : Option Sink → Option Sink) (s : Streams) : Streams :=
  { s with output := f s.output }

/-- A workspace with its streams replaced. -/
def Workspace.via (g : Streams → Streams) (w : Workspace) : Workspace :=
  { w with streams := g w.streams }

/-- What an action has come to, with the streams replaced. -/
def resultVia {α : Type} (g : Streams → Streams) :
    EStateM.Result Cause Workspace α → EStateM.Result Cause Workspace α
  | .ok a w => .ok a (w.via g)
  | .error cause w => .error cause (w.via g)

namespace Action

variable {α β : Type}

/-- An action does not notice what the streams are, and leaves them alone. -/
def Blind (x : Action α) : Prop :=
  ∀ g w, x (w.via g) = resultVia g (x w)

theorem blind_bind {x : Action α} {more : α → Action β} (first : Blind x)
    (second : ∀ a, Blind (more a)) : Blind (x >>= more) := by
  intro g w
  rw [bind_apply, bind_apply, first]
  cases x w with
  | ok a w' => exact second a g w'
  | error cause w' => rfl

theorem blind_pure (a : α) : Blind (pure a : Action α) :=
  fun _ _ => rfl

theorem blind_throw (cause : Cause) : Blind (throw cause : Action α) :=
  fun _ _ => rfl

theorem blind_push (word : Int64) : Blind (push word) :=
  fun _ _ => rfl

theorem blind_pop : Blind pop := by
  rintro g ⟨stack, calls, heap, streams⟩
  simp only [pop, Workspace.via]
  cases stack.peek? <;> rfl

theorem blind_peekAt (depth : Nat) : Blind (peekAt depth) := by
  rintro g ⟨stack, calls, heap, streams⟩
  simp only [peekAt, Workspace.via]
  cases stack.get? depth <;> rfl

theorem blind_drop (count : Nat) : Blind (drop count) := by
  intro g w
  by_cases short : w.stack.size < count
  · have short' : (w.via g).stack.size < count := short
    rw [drop, if_pos short', drop, if_pos short]
    rfl
  · have long' : ¬(w.via g).stack.size < count := short
    rw [drop, if_neg long', drop, if_neg short]
    rfl

theorem blind_natural (operand : Int64) : Blind (natural operand) := by
  rw [natural]
  split
  · exact blind_throw _
  · exact blind_pure _

theorem blind_pushCall (continuation : Option Nat) : Blind (pushCall continuation) :=
  fun _ _ => rfl

theorem blind_popCall : Blind popCall := by
  rintro g ⟨stack, calls, heap, streams⟩
  cases calls <;> rfl

theorem blind_load (address : Int64) : Blind (load address) :=
  fun _ _ => rfl

theorem blind_store (address word : Int64) : Blind (store address word) :=
  fun _ _ => rfl

end Action

/-! ## Instructions that do not look at the streams -/

open Whitespace.Action

theorem NumberOp.execute_blind (op : NumberOp) (operand : Int64) : Blind (op.execute operand) := by
  cases op with
  | push => exact blind_bind (blind_push _) fun _ => blind_pure _
  | copy =>
    apply blind_bind (blind_natural _)
    intro depth
    apply blind_bind (blind_peekAt depth)
    intro word
    exact blind_bind (blind_push word) fun _ => blind_pure _
  | slide =>
    apply blind_bind (blind_natural _)
    intro count
    apply blind_bind blind_pop
    intro top
    apply blind_bind (blind_drop count)
    intro _
    exact blind_bind (blind_push top) fun _ => blind_pure _

theorem LabelOp.branch_blind (node : Node) : Blind (branch node) := by
  rw [branch]
  split
  · exact blind_pure _
  · exact blind_throw _

theorem LabelOp.execute_blind (op : LabelOp) (node : Node) : Blind (op.execute node) := by
  cases op with
  | define => exact blind_throw _
  | call =>
    apply blind_bind (branch_blind node)
    intro move
    exact blind_bind (blind_pushCall _) fun _ => blind_pure _
  | jump => exact branch_blind node
  | jumpIf condition =>
    apply blind_bind blind_pop
    intro word
    split
    · exact branch_blind node
    · exact blind_pure _

theorem PlainOp.execute_blind {op : PlainOp} (stop : op ≠ .stop)
    (no_print : ∀ format, op ≠ .print format) (no_read : ∀ format, op ≠ .read format) :
    Blind op.execute := by
  cases op with
  | stop => exact absurd rfl stop
  | print format => exact absurd rfl (no_print format)
  | read format => exact absurd rfl (no_read format)
  | duplicate =>
    apply blind_bind (blind_peekAt 0)
    intro word
    exact blind_bind (blind_push word) fun _ => blind_pure _
  | swap =>
    apply blind_bind blind_pop
    intro top
    apply blind_bind blind_pop
    intro below
    apply blind_bind (blind_push top)
    intro _
    exact blind_bind (blind_push below) fun _ => blind_pure _
  | discard => exact blind_bind blind_pop fun _ => blind_pure _
  | calculate calculation =>
    apply blind_bind blind_pop
    intro right
    apply blind_bind blind_pop
    intro left
    split
    · exact blind_bind (blind_push _) fun _ => blind_pure _
    · exact blind_bind (blind_throw _) fun _ => blind_pure _
  | store =>
    apply blind_bind blind_pop
    intro word
    apply blind_bind blind_pop
    intro address
    exact blind_bind (blind_store address word) fun _ => blind_pure _
  | load =>
    apply blind_bind blind_pop
    intro address
    apply blind_bind (blind_load address)
    intro word
    exact blind_bind (blind_push word) fun _ => blind_pure _
  | ret =>
    apply blind_bind blind_popCall
    intro continuation
    split
    · exact blind_pure _
    · exact blind_throw _

/-- **A node that is no print, read or stop** does not notice what the streams are. -/
theorem Node.execute_blind {node : Node} (stop : node.instruction ≠ .plain .stop)
    (no_print : ∀ format, node.instruction ≠ .plain (.print format))
    (no_read : ∀ format, node.instruction ≠ .plain (.read format)) : Blind node.execute := by
  rw [Node.execute_eq]
  split
  · exact NumberOp.execute_blind _ _
  · exact LabelOp.execute_blind _ node
  · next op same =>
    rw [same] at stop no_print no_read
    exact PlainOp.execute_blind (fun h => stop (congrArg _ h))
      (fun format h => no_print format (congrArg _ h))
      (fun format h => no_read format (congrArg _ h))

/-! ## What the others do with the streams -/

section Streams

variable (format : Format) (stack : Stack) (word : Int64) (calls : List (Option Nat)) (heap : Heap)
  (streams : Streams)

/-- A stop flushes the output. -/
theorem PlainOp.execute_stop :
    stop.execute ⟨stack, calls, heap, streams⟩ =
      match streams.flush with
      | (none, streams) => .ok .halt ⟨stack, calls, heap, streams⟩
      | (some message, streams) => .error (.io message) ⟨stack, calls, heap, streams⟩ := by
  simp only [execute, bind_apply, flush_apply]
  rcases streams.flush with ⟨_ | message, flushed⟩ <;> rfl

/-- A print writes what there is to be printed. -/
theorem PlainOp.execute_print (input : Option Input) (sink : Sink) :
    (print format).execute ⟨stack.push word, calls, heap, ⟨input, some sink⟩⟩ =
      match format.print word with
      | .error cause => .error cause ⟨stack, calls, heap, ⟨input, some sink⟩⟩
      | .ok text =>
        match sink.write (Utf8.encode text) with
        | (none, sink) => .ok .next ⟨stack, calls, heap, ⟨input, some sink⟩⟩
        | (some message, sink) =>
          .error (.io message) ⟨stack, calls, heap, ⟨input, some sink⟩⟩ := by
  simp only [execute, bind_apply, requireOutput, pop_push]
  cases format.print word with
  | error cause => rfl
  | ok text =>
    rcases h : sink.write (Utf8.encode text) with ⟨_ | message, sink'⟩ <;> simp [write, h]

/-- A read flushes the output, and then reads. -/
theorem PlainOp.execute_read (input : Input) (output : Option Sink) :
    (read format).execute ⟨stack.push word, calls, heap, ⟨some input, output⟩⟩ =
      match Streams.flush ⟨some input, output⟩ with
      | (some message, streams) => .error (.io message) ⟨stack, calls, heap, streams⟩
      | (none, streams) =>
        match format.reading input with
        | .ok value input =>
          .ok .next ⟨stack, calls, heap.set word value, ⟨some input, streams.output⟩⟩
        | .error cause input =>
          .error cause ⟨stack, calls, heap, ⟨some input, streams.output⟩⟩ := by
  simp only [execute, bind_apply, requireInput, pop_push, flush_apply]
  have same := Streams.flush_input ⟨some input, output⟩
  rcases flushed : Streams.flush ⟨some input, output⟩ with ⟨_ | message, input', output'⟩
  · rw [flushed] at same
    obtain rfl : input' = some input := same
    cases read : format.reading input with
    | ok value rest => simp [Action.read, read, Action.store]
    | error cause rest => simp [Action.read, read]
  · rfl

/-- A stop does not notice that the streams are replaced if its flush does not. -/
theorem PlainOp.execute_stop_via {g : Streams → Streams}
    (flushes : (g streams).flush = (streams.flush.1, g streams.flush.2)) :
    stop.execute (Workspace.via g ⟨stack, calls, heap, streams⟩) =
      resultVia g (stop.execute ⟨stack, calls, heap, streams⟩) := by
  rw [Workspace.via, execute_stop, execute_stop, flushes]
  rcases streams.flush with ⟨_ | message, flushed⟩ <;> rfl

/-- A print does not notice that the input is replaced. -/
theorem PlainOp.execute_print_via (f : Option Input → Option Input) :
    (print format).execute (Workspace.via (.withInput f) ⟨stack, calls, heap, streams⟩) =
      resultVia (.withInput f) ((print format).execute ⟨stack, calls, heap, streams⟩) := by
  rcases streams with ⟨input, _ | sink⟩
  · rfl
  · rcases stack.eq_empty_or_push with rfl | ⟨stack, word, rfl⟩
    · rfl
    · rw [Workspace.via, Streams.withInput, execute_print, execute_print]
      cases format.print word with
      | error cause => rfl
      | ok text =>
        simp only
        rcases sink.write (Utf8.encode text) with ⟨_ | message, sink'⟩ <;> rfl

/-- A read does not notice that the output is replaced if its flush does not. -/
theorem PlainOp.execute_read_via {f : Option Sink → Option Sink}
    (flushes : (streams.withOutput f).flush =
      (streams.flush.1, streams.flush.2.withOutput f)) :
    (read format).execute (Workspace.via (.withOutput f) ⟨stack, calls, heap, streams⟩) =
      resultVia (.withOutput f) ((read format).execute ⟨stack, calls, heap, streams⟩) := by
  rcases streams with ⟨_ | input, output⟩
  · rfl
  · rcases stack.eq_empty_or_push with rfl | ⟨stack, address, rfl⟩
    · rfl
    · rw [Workspace.via, Streams.withOutput, execute_read, execute_read]
      rw [Streams.withOutput] at flushes
      rw [flushes]
      rcases Streams.flush ⟨some input, output⟩ with ⟨_ | message, flushed⟩
      · cases format.reading input <;> rfl
      · rfl

end Streams

/-- **A node does not notice** that the streams are replaced, unless it is a print, a read or a stop
that does. -/
theorem Node.execute_via {g : Streams → Streams} {node : Node} {w : Workspace}
    (stop : node.instruction = .plain .stop →
      PlainOp.stop.execute (w.via g) = resultVia g (PlainOp.stop.execute w))
    (print : ∀ format, node.instruction = .plain (.print format) →
      (PlainOp.print format).execute (w.via g) = resultVia g ((PlainOp.print format).execute w))
    (read : ∀ format, node.instruction = .plain (.read format) →
      (PlainOp.read format).execute (w.via g) = resultVia g ((PlainOp.read format).execute w)) :
    node.execute (w.via g) = resultVia g (node.execute w) := by
  by_cases is_stop : node.instruction = .plain .stop
  · rw [node.execute_eq, is_stop]
    exact stop is_stop
  by_cases is_print : ∃ format, node.instruction = .plain (.print format)
  · obtain ⟨format, is_print⟩ := is_print
    rw [node.execute_eq, is_print]
    exact print format is_print
  by_cases is_read : ∃ format, node.instruction = .plain (.read format)
  · obtain ⟨format, is_read⟩ := is_read
    rw [node.execute_eq, is_read]
    exact read format is_read
  exact Node.execute_blind is_stop (fun format same => is_print ⟨format, same⟩)
    (fun format same => is_read ⟨format, same⟩) g w

/-! ## Machines -/

namespace Machine

/-- An outcome with its streams replaced. -/
def Outcome.via (g : Streams → Streams) (o : Outcome) : Outcome :=
  { o with streams := g o.streams }

/-- A run with its streams replaced. -/
def Run.via (g : Streams → Streams) (r : Run) : Run :=
  { r with streams := g r.streams }

/-- With its streams replaced, a machine takes the same step. -/
def StepsAlike (g : Streams → Streams) (config : Config) (program : Program)
    (now : Machine × Streams) : Prop :=
  now.1.step config program (g now.2) = (now.1.step config program now.2).via g

variable {g : Streams → Streams} {config : Config} {program : Program} {m : Machine}
  {streams : Streams}

/-- **A machine takes the same step** if its node does not notice. -/
theorem stepsAlike_of_execute (config : Config)
    (commutes : ∀ node, m.Executes program node →
      node.execute ((m.workspace streams).via g) =
        resultVia g (node.execute (m.workspace streams))) :
    StepsAlike g config program (m, streams) := by
  rw [StepsAlike]
  by_cases running : m.state = .running
  · cases stands : program.node? m.current with
    | none =>
      simp only [step, running, stands]
      rfl
    | some node =>
      have executes : m.Executes program node := ⟨running, stands⟩
      have same : node.execute (m.workspace (g streams)) = _ := commutes node executes
      rw [executes.step_eq, executes.step_eq, same]
      rcases node.execute (m.workspace streams) with ⟨move, w⟩ | ⟨cause, w⟩
      · cases move with
        | halt => rfl
        | branch slot => rfl
        | next => cases node.next <;> rfl
      · rfl
  · rw [step_of_not_running config program _ running, step_of_not_running config program _ running]
    rfl

/-- **Two runs in lockstep.**  As long as no step notices that the streams are replaced, the
machines are the same, they return and report the same, and the streams are the same, replaced. -/
theorem after_via {n : Nat}
    (alike : ∀ k < n, StepsAlike g config program (after config program k m streams)) :
    after config program n m (g streams) =
        ((after config program n m streams).1, g (after config program n m streams).2) ∧
      results config program n m (g streams) = results config program n m streams ∧
      log config program n m (g streams) = log config program n m streams := by
  induction n generalizing m streams with
  | zero => exact ⟨rfl, rfl, rfl⟩
  | succ n ih =>
    have first : m.step config program (g streams) = (m.step config program streams).via g :=
      alike 0 (Nat.succ_pos n)
    obtain ⟨same, returned, reported⟩ := ih fun k less => alike (k + 1) (Nat.succ_lt_succ less)
    simp only [after, results, log, first]
    exact ⟨same, congrArg _ returned, congrArg _ reported⟩

/-- Behind steps in lockstep, the next one has the same machine. -/
theorem outcome_via {n : Nat}
    (alike : ∀ k < n, StepsAlike g config program (after config program k m streams)) :
    outcome config program n m (g streams) =
      (after config program n m streams).1.step config program
        (g (after config program n m streams).2) := by
  rw [outcome, (after_via alike).1]

/-- Two runs are in lockstep up to a step that faults when the streams are replaced: the one on
these streams ends there. -/
theorem faultsAt_via {n : Nat} {f : Fault}
    (alike : ∀ k < n, StepsAlike g config program (after config program k m streams))
    (running : (after config program n m streams).1.state = .running)
    (failed : (outcome config program n m (g streams)).result = .error f) :
    FaultsAt config program n m (g streams) f := by
  apply faultsAt_of_result _ failed
  rw [(after_via alike).1]
  exact running

/-- **Two whole runs**, if no step ever notices that the streams are replaced. -/
theorem resume_via (fuel : Nat) (events : Array Event)
    (alike : ∀ k, StepsAlike g config program (after config program k m streams)) :
    resume config program fuel m (g streams) events =
      (resume config program fuel m streams events).map (Run.via g) := by
  induction fuel generalizing m streams events with
  | zero => rfl
  | succ fuel ih =>
    have first : m.step config program (g streams) = (m.step config program streams).via g :=
      alike 0
    have events_eq : ((m.step config program streams).via g).events =
        (m.step config program streams).events := rfl
    rw [resume, resume, first, events_eq]
    simp only [Outcome.via]
    cases (m.step config program streams).result with
    | error f => rfl
    | ok state =>
      cases state with
      | running => exact ih _ fun k => alike (k + 1)
      | halted => rfl
      | faulted => rfl

end Machine

end Whitespace
