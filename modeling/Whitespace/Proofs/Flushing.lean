import Whitespace.Proofs.Dialogue
import Whitespace.Proofs.EffectBounds

/-!
# When the output is flushed

Who waits for input should have seen all that was printed, and so should who is told that the
program has halted.  Let an input and an output be attached, which may fail in any way.  All that a
run exchanges with them is written down by `Machine.talk`: every look at the input comes directly
behind a flush that has succeeded (`Machine.prompted_talk`), and a run that halts ends with one
(`Machine.flushed_of_halted`).  Nothing else is flushed, and a flush that fails ends the run.

## Main definitions

* `Machine.exchanges program m streams` — what the next step exchanges with its streams.
* `Machine.talk config program n m streams` — what the next `n` steps exchange with them.
* `Machine.stops` — the journal of the stops that are executed.
* `Prompted talk` — every look at the input comes directly behind a flush that has succeeded.
-/

namespace Whitespace

/-- Every look at the input comes directly behind a flush of the output that has succeeded. -/
def Prompted (talk : List Exchange) : Prop :=
  ∀ before after, talk = before ++ .looked :: after → before.getLast? = some (.flushed none)

namespace Machine

/-- What the next step exchanges with its streams, if both are attached. -/
def exchanges (program : Program) (m : Machine) : Streams → List Exchange
  | ⟨some input, some sink⟩ =>
    match m.next? program with
    | some node => ((node.dialogue (m.workspace {})).conduct input sink).2
    | none => []
  | _ => []

/-- What the next steps exchange with their streams, one after another. -/
def talk (config : Config) (program : Program) : Nat → Machine → Streams → List Exchange
  | 0, _, _ => []
  | n + 1, m, streams =>
    let outcome := m.step config program streams
    m.exchanges program streams ++ talk config program n outcome.machine outcome.streams

/-- The stop that the next step executes, if it executes one. -/
def stop? (program : Program) (m : Machine) (_ : Streams) : Option Node :=
  (m.next? program).filter fun node => node.instruction = .plain .stop

/-- The stops that are executed in the next steps. -/
def stops (config : Config) (program : Program) : Nat → Machine → Streams → List Node :=
  journal (stop? program) config program

end Machine

/-! ## Lists of exchanges -/

/-- Transcripts count the flushes. -/
theorem foldl_note_flushes (talk : List Exchange) (t : Transcript) :
    (talk.foldl Exchange.note t).flushes = t.flushes + talk.countP Exchange.isFlush := by
  induction talk generalizing t with
  | nil => rfl
  | cons e talk ih =>
    rw [List.foldl_cons, ih, List.countP_cons]
    rcases e with _ | ⟨_ | message⟩ | _ <;>
      simp [Exchange.note, Exchange.isFlush, Transcript.write, Transcript.flush,
        Transcript.failFlush] <;> omega

/-- A flush that has succeeded last covers all that has been written. -/
theorem flushedAt_of_getLast? {talk : List Exchange} (last : talk.getLast? = some (.flushed none))
    (t : Transcript) :
    (talk.foldl Exchange.note t).flushedAt.head? =
      some (talk.foldl Exchange.note t).written.size := by
  obtain ⟨earlier, rfl⟩ := List.getLast?_eq_some_iff.mp last
  rw [List.foldl_append]
  rfl

theorem prompted_of_not_looked {talk : List Exchange} (blind : Exchange.looked ∉ talk) :
    Prompted talk := by
  rintro before after rfl
  simp at blind

theorem prompted_flushed_looked : Prompted [.flushed none, .looked] := by
  intro before after split
  rcases before with _ | ⟨first, _ | ⟨second, before⟩⟩ <;> simp_all

/-- Two such talks, one behind the other. -/
theorem Prompted.append {talk talk' : List Exchange} (first : Prompted talk)
    (second : Prompted talk') : Prompted (talk ++ talk') := by
  intro before after split
  obtain ⟨more, same, later⟩ | ⟨more, same, later⟩ := List.append_eq_append_iff.mp split
  · rw [same, List.getLast?_append, second more after later]
    rfl
  · -- A look cannot be the first of the second talk, as nothing comes before it there.
    cases more with
    | nil =>
      have nothing := second [] after later.symm
      cases nothing
    | cons e more =>
      obtain ⟨rfl, -⟩ := List.cons.inj later
      exact first before more same

/-! ## Steps -/

/-- Only a stop halts. -/
theorem Instruction.effect_halt {i : Instruction} {follow target : Option Nat} {w : World}
    (halts : (i.effect follow target w).1 = .ok .halt) : i = .plain .stop := by
  cases i with
  | number op operand =>
    have other := (op.effect_local operand w).move _ halts
    cases other
  | label op name =>
    cases op with
    | define => cases halts
    | call | jump => cases target <;> cases halts
    | jumpIf condition =>
      simp only [effect, LabelOp.effect] at halts
      split at halts
      · cases halts
      · split at halts
        · cases target <;> cases halts
        · cases halts
  | plain op =>
    by_cases stop : op = .stop
    · rw [stop]
    by_cases ret : op = .ret
    · subst ret
      simp only [effect, PlainOp.effect] at halts
      split at halts <;> cases halts
    · have other := (PlainOp.effect_local ret stop w).move _ halts
      cases other

namespace Machine

variable {config : Config} {program : Program} {m : Machine} {streams : Streams} {node : Node}
  {input : Input} {sink : Sink} {format : Format} {address : Int64}

/-- A step leaves the streams that its node leaves. -/
theorem Executes.streams_eq (executes : m.Executes program node) (config : Config)
    (streams : Streams) :
    (m.step config program streams).streams =
      (leftOf (node.execute (m.workspace streams))).streams := by
  obtain ⟨-, -, -, left⟩ := executes.left_eq config streams
  exact left

theorem Executes.exchanges_eq (executes : m.Executes program node) (input : Input) (sink : Sink) :
    m.exchanges program ⟨some input, some sink⟩ =
      ((node.dialogue (m.workspace {})).conduct input sink).2 := by
  simp only [exchanges, next?_eq_some_iff.mpr executes]

/-- Executing a node is conducting its dialogue with the streams. -/
theorem execute_attached (m : Machine) (node : Node) (input : Input) (sink : Sink) :
    node.execute (m.workspace ⟨some input, some sink⟩) =
      ((node.dialogue (m.workspace {})).conduct input sink).1 :=
  node.execute_dialogue (m.workspace {}) input sink

/-- **What a step leaves of the streams**: they stay attached, and the transcript notes the
exchanges. -/
theorem step_attached (config : Config) (program : Program) (m : Machine) (input : Input)
    (sink : Sink) :
    ∃ rest, (m.step config program ⟨some input, some sink⟩).streams =
      ⟨some rest, some { sink with
        transcript := (m.exchanges program ⟨some input, some sink⟩).foldl Exchange.note
          sink.transcript }⟩ := by
  cases executed : m.next? program with
  | none =>
    refine ⟨input, ?_⟩
    rw [streams_of_idle executed]
    simp [exchanges, executed]
  | some node =>
    have executes := next?_eq_some_iff.mp executed
    rw [executes.streams_eq, execute_attached, executes.exchanges_eq]
    exact Dialogue.conduct_streams _ input sink

/-- **A step that does not look at the input** is the same for every input. -/
theorem stepsAlike_of_not_looked
    (blind : Exchange.looked ∉ m.exchanges program ⟨some input, some sink⟩) (other : Input) :
    StepsAlike (.withInput fun _ => some other) config program (m, ⟨some input, some sink⟩) := by
  apply stepsAlike_of_execute
  intro node executes
  rw [executes.exchanges_eq] at blind
  have same := execute_attached m node other sink
  rw [Dialogue.conduct_of_not_looked _ input sink other blind] at same
  rw [execute_attached m node input sink]
  exact same

/-! ### What is exchanged -/

/-- A stop flushes the output. -/
theorem Executes.exchanges_of_stop (executes : m.Executes program node)
    (stop : node.instruction = .plain .stop) (input : Input) (sink : Sink) :
    m.exchanges program ⟨some input, some sink⟩ = [.flushed sink.flush.1] := by
  rw [executes.exchanges_eq, Node.dialogue, stop]
  cases flushed : sink.flush.1 <;>
    simp [PlainOp.dialogue, Dialogue.conduct, Dialogue.answered, flushed]

/-- A stop is no read. -/
theorem Executes.read?_of_stop (executes : m.Executes program node)
    (stop : node.instruction = .plain .stop) (streams : Streams) :
    read? program m streams = none := by
  cases noted : read? program m streams with
  | none => rfl
  | some r =>
    obtain ⟨node', finds⟩ := exists_finds_of_read? noted
    obtain rfl := Option.some.inj (executes.stands.symm.trans finds.stands)
    rw [finds.instruction] at stop
    cases stop

/-- A read that has an address flushes the output and, if that succeeds, looks at the input. -/
theorem Finds.exchanges_of_read (finds : m.Finds program node (.read format) address)
    (input : Input) (sink : Sink) :
    m.exchanges program ⟨some input, some sink⟩ =
      match sink.flush.1 with
      | none => [.flushed none, .looked]
      | some message => [.flushed (some message)] := by
  obtain ⟨below, pushed⟩ := finds.stack_eq
  rw [finds.exchanges_eq, Node.dialogue, finds.instruction, workspace, pushed]
  dsimp only
  rw [PlainOp.dialogue_read]
  cases flushed : sink.flush.1 with
  | none => cases read : format.reading input <;> simp [Dialogue.conduct, flushed, read]
  | some message => simp [Dialogue.conduct, flushed]

/-- **What a step exchanges with its streams**: a read has flushed before it looks at the input, a
stop flushes, and all other steps write at most. -/
theorem exchanges_cases (program : Program) (m : Machine) (input : Input) (sink : Sink) :
    (∃ node format address, m.Finds program node (.read format) address) ∨
      (∃ node, m.Executes program node ∧ node.instruction = .plain .stop) ∨
      read? program m ⟨some input, some sink⟩ = none ∧
        stop? program m ⟨some input, some sink⟩ = none ∧
        ∀ e ∈ m.exchanges program ⟨some input, some sink⟩,
          ∃ kept failure, e = .wrote kept failure := by
  by_cases read : ∃ node format address, m.Finds program node (.read format) address
  · exact .inl read
  by_cases stop : ∃ node, m.Executes program node ∧ node.instruction = .plain .stop
  · exact .inr (.inl stop)
  refine .inr (.inr ⟨?_, ?_, ?_⟩)
  · cases noted : read? program m ⟨some input, some sink⟩ with
    | none => rfl
    | some r =>
      obtain ⟨node, finds⟩ := exists_finds_of_read? noted
      exact absurd ⟨node, r.format, r.address, finds⟩ read
  · rw [stop?, Option.filter_eq_none_iff]
    intro node executed is_stop
    exact stop ⟨node, next?_eq_some_iff.mp executed, of_decide_eq_true is_stop⟩
  · intro e member
    cases executed : m.next? program with
    | none =>
      simp only [exchanges, executed] at member
      cases member
    | some node =>
      have executes := next?_eq_some_iff.mp executed
      rw [executes.exchanges_eq] at member
      refine Node.wrote_of_dialogue _ input sink (fun same => stop ⟨node, executes, same⟩) ?_ e
        member
      intro format same
      cases top : (m.workspace {}).stack.peek? with
      | none => rfl
      | some address => exact absurd ⟨node, format, address, executes, same, top⟩ read

/-- **A look at the input comes behind a flush**, within a step. -/
theorem prompted_exchanges (program : Program) (m : Machine) (input : Input) (sink : Sink) :
    Prompted (m.exchanges program ⟨some input, some sink⟩) := by
  obtain ⟨node, format, address, finds⟩ | ⟨node, executes, stop⟩ | ⟨-, -, wrote⟩ :=
    exchanges_cases program m input sink
  · rw [finds.exchanges_of_read]
    split
    · exact prompted_flushed_looked
    · exact prompted_of_not_looked (by simp)
  · rw [executes.exchanges_of_stop stop]
    exact prompted_of_not_looked (by simp)
  · apply prompted_of_not_looked
    intro looked
    obtain ⟨kept, failure, other⟩ := wrote _ looked
    cases other

/-- **Reads with an address and stops flush the output**, once each, and nothing else does. -/
theorem countP_exchanges (program : Program) (m : Machine) (input : Input) (sink : Sink) :
    (m.exchanges program ⟨some input, some sink⟩).countP Exchange.isFlush =
      (read? program m ⟨some input, some sink⟩).toList.length +
        (stop? program m ⟨some input, some sink⟩).toList.length := by
  obtain ⟨node, format, address, finds⟩ | ⟨node, executes, stop⟩ | ⟨no_read, no_stop, wrote⟩ :=
    exchanges_cases program m input sink
  · have no_stop : stop? program m ⟨some input, some sink⟩ = none := by
      simp [stop?, next?_eq_some_iff.mpr finds.toExecutes, finds.instruction, Option.filter]
    have noted : (read? program m ⟨some input, some sink⟩).toList.length = 1 := by
      rw [finds.read?_eq]
      split <;> rfl
    rw [finds.exchanges_of_read, noted, no_stop]
    split <;> rfl
  · have no_read := executes.read?_of_stop stop ⟨some input, some sink⟩
    have noted : stop? program m ⟨some input, some sink⟩ = some node := by
      simp [stop?, next?_eq_some_iff.mpr executes, stop, Option.filter]
    rw [executes.exchanges_of_stop stop, no_read, noted]
    rfl
  · rw [no_read, no_stop, List.countP_eq_zero.mpr]
    · rfl
    · intro e member
      obtain ⟨kept, failure, rfl⟩ := wrote e member
      exact Bool.false_ne_true

/-! ### Halting -/

/-- A stop whose flush fails. -/
theorem execute_stop_failed (m : Machine)
    (stop : node.instruction = .plain .stop) {message : String}
    (failed : streams.flush.1 = some message) :
    node.execute (m.workspace streams) =
      .error (.io message) (m.workspace streams.flush.2) := by
  rw [node.execute_eq, stop]
  simp only [workspace, PlainOp.execute_stop]
  rcases flushed : streams.flush with ⟨failure, streams'⟩
  rw [flushed] at failed
  cases failed
  rfl

/-- **A machine halts** by a stop whose flush succeeds, and in no other way. -/
theorem Executes.halted_iff (executes : m.Executes program node) (config : Config)
    (streams : Streams) :
    (m.step config program streams).machine.state = .halted ↔
      node.instruction = .plain .stop ∧ streams.flush.1 = none := by
  constructor
  · intro halted
    have turned := turn_workspace m streams node
    have stop : node.instruction = .plain .stop := by
      rw [executes.step_eq] at halted
      split at halted
      · cases halted
      · next w ended =>
        rw [ended] at turned
        exact Instruction.effect_halt (congrArg Prod.fst turned).symm
      · cases halted
      · split at halted <;> cases halted
    refine ⟨stop, ?_⟩
    by_contra failed
    obtain ⟨message, failed⟩ := Option.ne_none_iff_exists'.mp failed
    rw [executes.step_of_error (execute_stop_failed m stop failed)] at halted
    cases halted
  · rintro ⟨stop, flushed⟩
    rw [executes.step_eq, node.execute_eq, stop]
    simp only [workspace, PlainOp.execute_stop]
    rcases flush : streams.flush with ⟨failure, streams'⟩
    rw [flush] at flushed
    obtain rfl : failure = none := flushed
    rfl

/-- **A step that halts** has flushed the output, with success. -/
theorem exchanges_of_halted (running : m.state = .running)
    (halted : (m.step config program ⟨some input, some sink⟩).machine.state = .halted) :
    m.exchanges program ⟨some input, some sink⟩ = [.flushed none] := by
  cases stands : program.node? m.current with
  | none =>
    simp only [step, running, stands] at halted
    cases halted
  | some node =>
    have executes : m.Executes program node := ⟨running, stands⟩
    obtain ⟨stop, flushed⟩ := (executes.halted_iff config _).mp halted
    have flushed : sink.flush.1 = none := flushed
    rw [executes.exchanges_of_stop stop, flushed]

/-- A stop ends the run. -/
theorem Executes.stopped_of_stop (executes : m.Executes program node)
    (stop : node.instruction = .plain .stop) (config : Config) (streams : Streams) :
    (m.step config program streams).machine.state ≠ .running := by
  rw [executes.step_eq, node.execute_eq, stop]
  simp only [workspace, PlainOp.execute_stop]
  rcases streams.flush with ⟨_ | message, flushed⟩ <;> exact State.noConfusion

/-! ### Flushes that fail -/

/-- A read whose flush fails has taken its address and does not look at the input. -/
theorem Finds.execute_read_failed (finds : m.Finds program node (.read format) address)
    {output : Option Sink} {message : String}
    (failed : (Streams.flush ⟨some input, output⟩).1 = some message) :
    ∃ below, node.execute (m.workspace ⟨some input, output⟩) =
      .error (.io message) ⟨below, m.calls, m.heap, (Streams.flush ⟨some input, output⟩).2⟩ := by
  obtain ⟨below, pushed⟩ := finds.stack_eq
  refine ⟨below, ?_⟩
  rw [node.execute_eq, finds.instruction, workspace, pushed]
  simp only [PlainOp.execute_read]
  rcases flushed : Streams.flush ⟨some input, output⟩ with ⟨failure, streams'⟩
  rw [flushed] at failed
  cases failed
  rfl

/-! ## Runs -/

/-- **What a run leaves of the streams**: they stay attached, and the transcript notes what has been
exchanged. -/
theorem after_attached (config : Config) (program : Program) (n : Nat) (m : Machine)
    (input : Input) (sink : Sink) :
    ∃ rest, (after config program n m ⟨some input, some sink⟩).2 =
      ⟨some rest, some { sink with
        transcript := (talk config program n m ⟨some input, some sink⟩).foldl Exchange.note
          sink.transcript }⟩ := by
  induction n generalizing m input sink with
  | zero => exact ⟨input, rfl⟩
  | succ n ih =>
    obtain ⟨rest, left⟩ := step_attached config program m input sink
    simp only [after, talk, left, List.foldl_append]
    exact ih _ rest _

/-- **Every look at the input comes behind a flush**, along a run. -/
theorem prompted_talk (config : Config) (program : Program) (n : Nat) (m : Machine) (input : Input)
    (sink : Sink) : Prompted (talk config program n m ⟨some input, some sink⟩) := by
  induction n generalizing m input sink with
  | zero => exact prompted_of_not_looked (by simp [talk])
  | succ n ih =>
    obtain ⟨rest, left⟩ := step_attached config program m input sink
    rw [talk, left]
    exact (prompted_exchanges program m input sink).append (ih _ rest _)

/-- **A run flushes once for every read with an address and for every stop.** -/
theorem countP_talk (config : Config) (program : Program) (n : Nat) (m : Machine) (input : Input)
    (sink : Sink) :
    (talk config program n m ⟨some input, some sink⟩).countP Exchange.isFlush =
      (receipts config program n m ⟨some input, some sink⟩).length +
        (stops config program n m ⟨some input, some sink⟩).length := by
  induction n generalizing m input sink with
  | zero => rfl
  | succ n ih =>
    obtain ⟨rest, left⟩ := step_attached config program m input sink
    have later := ih (m.step config program ⟨some input, some sink⟩).machine rest
      { sink with
        transcript := (m.exchanges program ⟨some input, some sink⟩).foldl Exchange.note
          sink.transcript }
    rw [← left] at later
    simp only [receipts, stops] at later ⊢
    rw [talk, journal, journal, List.countP_append, List.length_append, List.length_append, later,
      countP_exchanges]
    omega

/-- A machine that does not run exchanges nothing and executes no stop. -/
theorem talk_of_stopped (config : Config) (program : Program) (streams : Streams)
    (stopped : m.state ≠ .running) (n : Nat) :
    talk config program n m streams = [] ∧ stops config program n m streams = [] := by
  have idle : m.next? program = none := if_neg stopped
  have silent : m.exchanges program streams = [] := by
    rcases streams with ⟨_ | input, _ | sink⟩ <;> simp [exchanges, idle]
  induction n with
  | zero => exact ⟨rfl, rfl⟩
  | succ n ih =>
    simp only [stops] at ih ⊢
    rw [talk, journal, step_of_not_running config program streams stopped, silent, stop?, idle]
    exact ih

/-- **A run executes at most one stop.** -/
theorem length_stops_le (config : Config) (program : Program) (n : Nat) (m : Machine)
    (streams : Streams) : (stops config program n m streams).length ≤ 1 := by
  induction n generalizing m streams with
  | zero => exact Nat.zero_le 1
  | succ n ih =>
    have later := ih (m.step config program streams).machine (m.step config program streams).streams
    cases noted : stop? program m streams with
    | none =>
      simp only [stops] at later ⊢
      rwa [journal, noted]
    | some node =>
      obtain ⟨executed, stop⟩ := Option.filter_eq_some_iff.mp noted
      have executes := next?_eq_some_iff.mp executed
      have stopped := executes.stopped_of_stop (of_decide_eq_true stop) config streams
      have none_left := (talk_of_stopped config program
        (m.step config program streams).streams stopped n).2
      simp only [stops] at none_left ⊢
      rw [journal, noted, none_left]
      exact Nat.le_refl 1

/-- **A run that halts ends with a flush** that has succeeded. -/
theorem flushed_of_halted {n : Nat} (running : m.state = .running)
    (halted : (after config program n m ⟨some input, some sink⟩).1.state = .halted) :
    (talk config program n m ⟨some input, some sink⟩).getLast? = some (.flushed none) := by
  induction n generalizing m input sink with
  | zero =>
    rw [after, running] at halted
    cases halted
  | succ n ih =>
    obtain ⟨rest, left⟩ := step_attached config program m input sink
    rw [after] at halted
    rw [talk]
    -- Behind the step that halts nothing is exchanged, so its flush stays the last.
    by_cases goes_on : (m.step config program ⟨some input, some sink⟩).machine.state = .running
    · rw [left] at halted ⊢
      rw [List.getLast?_append, ih goes_on halted]
      rfl
    · rw [after_of_stopped config program _ goes_on] at halted
      rw [(talk_of_stopped config program _ goes_on n).1, exchanges_of_halted running halted]
      rfl

/-- **A node that fails is the end of the run**, which keeps what the node has left. -/
theorem faultsAt_of_execute {n : Nat} {cause : Cause} {w : Workspace}
    (executes : (after config program n m streams).1.Executes program node)
    (failed : node.execute ((after config program n m streams).1.workspace
      (after config program n m streams).2) = .error cause w) :
    FaultsAt config program n m streams ⟨cause, some ⟨node.instruction, node.index⟩⟩ ∧
      (outcome config program n m streams).streams = w.streams ∧
      (outcome config program n m streams).machine.heap = w.heap := by
  have step := executes.step_of_error failed config
  refine ⟨faultsAt_of_result executes.running ?_, ?_, ?_⟩
  · rw [outcome, step]
  · rw [outcome, step]
  · rw [outcome, step]
    rfl

/-- A run that faults never halts. -/
theorem not_halted_of_faultsAt {n : Nat} {f : Fault}
    (faults : FaultsAt config program n m streams f)
    (running : (after config program n m streams).1.state = .running) (k : Nat) :
    (after config program k m streams).1.state ≠ .halted := by
  intro halted
  by_cases later : n < k
  · have settled := settled_step config program (after config program n m streams).2 running
    have failed := faults.result
    rw [outcome] at failed
    simp only [failed] at settled
    rw [faults.after k later, outcome, settled.1] at halted
    cases halted
  · obtain ⟨d, rfl⟩ := Nat.exists_eq_add_of_le (Nat.le_of_not_lt later)
    have stopped : (after config program k m streams).1.state ≠ .running := by
      rw [halted]
      exact State.noConfusion
    rw [after_add, after_of_stopped config program _ stopped] at running
    exact stopped running

/-- **The output is flushed before the program waits and before it halts.**  Let a program run on an
input and an output, which may fail in any way, for any number of steps.  `seen` is all that it has
exchanged with them: the output has noted these exchanges and nothing else, executing the next node
is conducting its dialogue, and a step that does not look at the input is the same for every input.

* Whenever the input was looked at, the exchange before was a flush of the output that succeeded.
* If the machine has halted, the last exchange was a flush that succeeded, and it covers all that
  has been written.
* The output has been flushed once for every read that has found an address, and once more if a stop
  has been executed.
* If a read is next and the output cannot be flushed, the run ends with this failure; the input and
  the heap stay as they are.
* If a stop is next and the output cannot be flushed, the run ends with this failure and never
  halts. -/
theorem output_flushed (program : Program) (config : Config) (input : Input) (sink : Sink)
    (n : Nat) :
    let m := start program
    let streams : Streams := ⟨some input, some sink⟩
    let now := after config program n m streams
    let seen := talk config program n m streams
    let transcript := seen.foldl Exchange.note sink.transcript
    ((∃ rest, now.2 = ⟨some rest, some { sink with transcript }⟩ ∧
        ∀ node, now.1.Executes program node → node.execute (now.1.workspace now.2) =
          ((node.dialogue (now.1.workspace {})).conduct rest { sink with transcript }).1) ∧
      (Exchange.looked ∉ now.1.exchanges program now.2 →
        ∀ other, StepsAlike (.withInput fun _ => some other) config program now)) ∧
    Prompted seen ∧
    (now.1.state = .halted →
      seen.getLast? = some (.flushed none) ∧
        transcript.flushedAt.head? = some transcript.written.size) ∧
    (transcript.flushes = sink.transcript.flushes + (receipts config program n m streams).length +
        (stops config program n m streams).length ∧
      (stops config program n m streams).length ≤ 1) ∧
    ∀ message, now.2.flush.1 = some message →
      (∀ node format address, now.1.Finds program node (.read format) address →
        FaultsAt config program n m streams ⟨.io message, some ⟨node.instruction, node.index⟩⟩ ∧
        (outcome config program n m streams).streams.input = now.2.input ∧
        (outcome config program n m streams).machine.heap = now.1.heap) ∧
      ∀ node, now.1.Executes program node → node.instruction = .plain .stop →
        FaultsAt config program n m streams ⟨.io message, some ⟨node.instruction, node.index⟩⟩ ∧
        ∀ k, (after config program k m streams).1.state ≠ .halted := by
  intro m streams now seen transcript
  obtain ⟨rest, left⟩ : ∃ rest, now.2 = ⟨some rest, some { sink with transcript }⟩ :=
    after_attached config program n m input sink
  refine ⟨⟨⟨rest, left, ?_⟩, ?_⟩, prompted_talk config program n m input sink, ?_, ⟨?_, ?_⟩, ?_⟩
  · intro node executes
    rw [left]
    exact execute_attached now.1 node rest _
  · intro blind other
    have alike : StepsAlike (.withInput fun _ => some other) config program (now.1, now.2) := by
      rw [left] at blind ⊢
      exact stepsAlike_of_not_looked blind other
    exact alike
  · intro halted
    have last : seen.getLast? = some (.flushed none) := flushed_of_halted rfl halted
    exact ⟨last, flushedAt_of_getLast? last sink.transcript⟩
  · have counted : seen.countP Exchange.isFlush = _ := countP_talk config program n m input sink
    rw [foldl_note_flushes, counted, Nat.add_assoc]
  · exact length_stops_le config program n m streams
  · intro message failed
    constructor
    · intro node format address finds
      have failed' := failed
      rw [left] at failed'
      obtain ⟨below, ended⟩ := finds.execute_read_failed failed'
      rw [← left] at ended
      obtain ⟨faults, streams_eq, heap⟩ := faultsAt_of_execute finds.toExecutes ended
      refine ⟨faults, ?_, heap⟩
      rw [streams_eq]
      exact Streams.flush_input now.2
    · intro node executes stop
      obtain ⟨faults, -⟩ := faultsAt_of_execute executes (execute_stop_failed _ stop failed)
      exact ⟨faults, not_halted_of_faultsAt faults executes.running⟩

/-- A program that prints, reads and stops, with an output whose second flush fails: the look at the
input comes behind the first, and the program does not halt. -/
theorem output_flushed_failing :
    let is := [.number .push 65, .plain (.print .character), .number .push 0,
      .plain (.read .character), .plain .stop]
    let streams : Streams := ⟨some (.ofBytes [0x78]), some { device := .failingFlush 2 "full" }⟩
    ∃ l, link is = .ok l ∧
      (talk {} l.program 4 (start l.program) streams).map Exchange.isFlush = [false, true, false] ∧
      Prompted (talk {} l.program 4 (start l.program) streams) ∧
      ∀ k, (after {} l.program k (start l.program) streams).1.state ≠ .halted := by
  intro is streams
  let l : Linking := ⟨⟨#[⟨0, .number .push 65, some 1, none⟩,
    ⟨1, .plain (.print .character), some 2, none⟩, ⟨2, .number .push 0, some 3, none⟩,
    ⟨3, .plain (.read .character), some 4, none⟩, ⟨4, .plain .stop, none, none⟩]⟩, 0, 5⟩
  have linked : link is = .ok l := rfl
  obtain ⟨-, prompted, -, -, failing⟩ := output_flushed l.program {} (.ofBytes [0x78])
    { device := .failingFlush 2 "full" } 4
  obtain ⟨-, stop⟩ := failing "full" (by decide +kernel)
  obtain ⟨-, never⟩ := stop ⟨4, .plain .stop, none, none⟩ ⟨by decide +kernel, by decide +kernel⟩ rfl
  exact ⟨l, linked, by decide +kernel, prompted, never⟩

end Machine

end Whitespace
