import Whitespace.Proofs.Lockstep

/-!
# What an instruction asks of its streams

An instruction and its streams are two parties.  The instruction writes, flushes or reads, gets an
answer, and goes on depending on it; the streams know nothing of the instruction.  `Dialogue` is
the part of the instruction and `Dialogue.conduct` lets it talk to an input and an output.  The
exchanges come in the order in which they take place, so that it can be said what happens before the
input is looked at.

Executing a node is conducting its dialogue (`Node.execute_dialogue`).  What is not exchanged has no
influence: without a look at the input, the outcome is the same for every input
(`Dialogue.conduct_of_not_looked`), and the transcript of the output changes by the exchanges alone
(`Dialogue.conduct_streams`).

## Main definitions

* `Exchange` — a request of an instruction and how it was answered.
* `Dialogue` — what an instruction asks of its streams.
* `Node.dialogue node w` — the dialogue of a node in a workspace without streams.
-/

namespace Whitespace

/-- A request of an instruction and how it was answered. -/
inductive Exchange where
  /-- The output was to be given some bytes; those it has kept, and the failure. -/
  | wrote (kept : ByteArray) (failure : Option String)
  /-- The output was to be flushed. -/
  | flushed (failure : Option String)
  /-- The input was looked at. -/
  | looked

/-- The exchange is an attempt to flush the output. -/
def Exchange.isFlush : Exchange → Bool
  | flushed _ => true
  | _ => false

/-- The transcript of the output behind an exchange. -/
def Exchange.note (t : Transcript) : Exchange → Transcript
  | wrote kept _ => t.write kept
  | flushed none => t.flush
  | flushed (some _) => t.failFlush
  | looked => t

/-- The part of an instruction in its talk with the streams. -/
inductive Dialogue where
  | ends (result : EStateM.Result Cause Workspace Move)
  | write (bytes : ByteArray) (more : Option String → Dialogue)
  | flush (more : Option String → Dialogue)
  | read (format : Format) (more : Except Cause Int64 → Dialogue)

/-- The bytes that a sink keeps of those it is given. -/
def Sink.kept (sink : Sink) (bytes : ByteArray) : ByteArray :=
  match sink.device.refuseWrite sink.transcript bytes with
  | none => bytes
  | some (count, _) => bytes.extract 0 count

/-- What an action has left. -/
def leftOf {α : Type} : EStateM.Result Cause Workspace α → Workspace
  | .ok _ w => w
  | .error _ w => w

namespace Dialogue

/-- Lets an instruction talk to its streams: what it has come to, and the exchanges. -/
def conduct : Dialogue → Input → Sink → EStateM.Result Cause Workspace Move × List Exchange
  | ends result, input, sink => (resultVia (fun _ => ⟨some input, some sink⟩) result, [])
  | write bytes more, input, sink =>
    let answer := sink.write bytes
    let later := (more answer.1).conduct input answer.2
    (later.1, .wrote (sink.kept bytes) answer.1 :: later.2)
  | flush more, input, sink =>
    let answer := sink.flush
    let later := (more answer.1).conduct input answer.2
    (later.1, .flushed answer.1 :: later.2)
  | read format more, input, sink =>
    match format.reading input with
    | .ok word rest =>
      let later := (more (.ok word)).conduct rest sink
      (later.1, .looked :: later.2)
    | .error cause rest =>
      let later := (more (.error cause)).conduct rest sink
      (later.1, .looked :: later.2)

/-- The end of a dialogue by the answer to its last request. -/
def answered (move : Move) (w : Workspace) : Option String → Dialogue
  | none => .ends (.ok move w)
  | some message => .ends (.error (.io message) w)

end Dialogue

/-- The dialogue of an instruction without operand, in a workspace without streams. -/
def PlainOp.dialogue (op : PlainOp) (w : Workspace) : Dialogue :=
  match op, w.stack.pop? with
  | .stop, _ => .flush (Dialogue.answered .halt w)
  | .print _, none | .read _, none => .ends (.error .stackUnderflow w)
  | .print format, some (word, below) =>
    match format.print word with
    | .error cause => .ends (.error cause { w with stack := below })
    | .ok text => .write (Utf8.encode text) (Dialogue.answered .next { w with stack := below })
  | .read format, some (address, below) =>
    .flush fun
      | some message => .ends (.error (.io message) { w with stack := below })
      | none =>
        .read format fun
          | .error cause => .ends (.error cause { w with stack := below })
          | .ok word =>
            .ends (.ok .next { w with stack := below, heap := w.heap.set address word })
  | op, _ => .ends (op.execute w)

/-- The dialogue of a node, in a workspace without streams. -/
def Node.dialogue (node : Node) (w : Workspace) : Dialogue :=
  match node.instruction with
  | .plain op => op.dialogue w
  | _ => .ends (node.execute w)

/-! ## Sinks -/

/-- A write is noted by the bytes that are kept. -/
theorem Sink.write_snd (sink : Sink) (bytes : ByteArray) :
    (sink.write bytes).2 = { sink with transcript := sink.transcript.write (sink.kept bytes) } := by
  rw [write, kept]
  cases sink.device.refuseWrite sink.transcript bytes <;> rfl

/-- A flush is noted as one that has succeeded or failed. -/
theorem Sink.flush_snd (sink : Sink) :
    sink.flush.2 =
      { sink with transcript := Exchange.note sink.transcript (.flushed sink.flush.1) } := by
  rw [flush]
  cases sink.device.refuseFlush sink.transcript <;> rfl

/-! ## Any dialogue -/

namespace Dialogue

variable (d : Dialogue) (input : Input) (sink : Sink)

/-- **What a dialogue leaves of the streams**: they stay attached, and the transcript of the output
notes the exchanges and nothing else. -/
theorem conduct_streams :
    ∃ rest, (leftOf (d.conduct input sink).1).streams =
      ⟨some rest, some { sink with
        transcript := (d.conduct input sink).2.foldl Exchange.note sink.transcript }⟩ := by
  induction d generalizing input sink with
  | ends result => exact ⟨input, by cases result <;> rfl⟩
  | write bytes more ih =>
    have later := ih (sink.write bytes).1 input (sink.write bytes).2
    simp only [conduct, Sink.write_snd] at later ⊢
    exact later
  | flush more ih =>
    have later := ih sink.flush.1 input sink.flush.2
    simp only [conduct, Sink.flush_snd] at later ⊢
    exact later
  | read format more ih =>
    simp only [conduct]
    cases format.reading input with
    | ok word rest => exact ih (.ok word) rest sink
    | error cause rest => exact ih (.error cause) rest sink

/-- **Without a look at the input** a dialogue takes the same course for every input, and leaves it
as it is. -/
theorem conduct_of_not_looked (other : Input)
    (blind : Exchange.looked ∉ (d.conduct input sink).2) :
    d.conduct other sink =
      (resultVia (.withInput fun _ => some other) (d.conduct input sink).1,
        (d.conduct input sink).2) := by
  induction d generalizing sink with
  | ends result => cases result <;> rfl
  | write bytes more ih =>
    simp only [conduct, List.mem_cons, not_or] at blind ⊢
    rw [ih _ _ blind.2]
  | flush more ih =>
    simp only [conduct, List.mem_cons, not_or] at blind ⊢
    rw [ih _ _ blind.2]
  | read format more ih =>
    simp only [conduct] at blind
    cases read : format.reading input <;> simp [read] at blind

end Dialogue

/-! ## The dialogues of nodes -/

section Nodes

variable (node : Node) (w : Workspace) (input : Input) (sink : Sink)

section Push

variable (format : Format) (below : Stack) (word : Int64) (calls : List (Option Nat)) (heap : Heap)
  (streams : Streams)

/-- A print writes what there is to be printed. -/
theorem PlainOp.dialogue_print :
    (print format).dialogue ⟨below.push word, calls, heap, streams⟩ =
      match format.print word with
      | .error cause => .ends (.error cause ⟨below, calls, heap, streams⟩)
      | .ok text =>
        .write (Utf8.encode text) (Dialogue.answered .next ⟨below, calls, heap, streams⟩) := by
  unfold dialogue
  rw [Stack.pop?_push]

/-- A read flushes the output and then, if that has succeeded, looks at the input. -/
theorem PlainOp.dialogue_read :
    (read format).dialogue ⟨below.push word, calls, heap, streams⟩ =
      .flush fun
        | some message => .ends (.error (.io message) ⟨below, calls, heap, streams⟩)
        | none =>
          .read format fun
            | .error cause => .ends (.error cause ⟨below, calls, heap, streams⟩)
            | .ok value => .ends (.ok .next ⟨below, calls, heap.set word value, streams⟩) := by
  unfold dialogue
  rw [Stack.pop?_push]

end Push

/-- An instruction that does not notice the streams asks nothing of them. -/
theorem Dialogue.conduct_ends {x : Action Move} (blind : Action.Blind x) :
    x (w.via fun _ => ⟨some input, some sink⟩) = ((ends (x w)).conduct input sink).1 :=
  blind _ w

/-- Executing an instruction without operand is conducting its dialogue. -/
theorem PlainOp.execute_dialogue (op : PlainOp) :
    op.execute (w.via fun _ => ⟨some input, some sink⟩) =
      ((op.dialogue w).conduct input sink).1 := by
  rcases w with ⟨stack, calls, heap, streams⟩
  cases op with
  | stop =>
    rw [Workspace.via, execute_stop]
    rcases flushed : sink.flush with ⟨_ | message, sink'⟩ <;>
      simp [dialogue, Dialogue.conduct, Dialogue.answered, Streams.flush, flushed, resultVia,
        Workspace.via]
  | print format =>
    rcases stack.eq_empty_or_push with rfl | ⟨stack, word, rfl⟩
    · rfl
    · rw [Workspace.via, execute_print, dialogue_print]
      cases format.print word with
      | error cause => rfl
      | ok text =>
        rcases written : sink.write (Utf8.encode text) with ⟨_ | message, sink'⟩ <;>
          simp [Dialogue.conduct, Dialogue.answered, written, resultVia, Workspace.via]
  | read format =>
    rcases stack.eq_empty_or_push with rfl | ⟨stack, address, rfl⟩
    · rfl
    · rw [Workspace.via, execute_read, dialogue_read]
      rcases flushed : sink.flush with ⟨_ | message, sink'⟩
      · cases read : format.reading input <;>
          simp [Dialogue.conduct, Streams.flush, flushed, read, resultVia, Workspace.via]
      · simp [Dialogue.conduct, Streams.flush, flushed, resultVia, Workspace.via]
  | duplicate | swap | discard | calculate _ | store | load | ret =>
    exact Dialogue.conduct_ends _ _ _ (PlainOp.execute_blind (by simp) (by simp) (by simp))

/-- **Executing a node is conducting its dialogue.** -/
theorem Node.execute_dialogue :
    node.execute (w.via fun _ => ⟨some input, some sink⟩) =
      ((node.dialogue w).conduct input sink).1 := by
  rw [Node.execute_eq, Node.dialogue]
  rcases node with ⟨index, op | op | op, next, branch⟩
  · exact Dialogue.conduct_ends _ _ _ (NumberOp.execute_blind op _)
  · exact Dialogue.conduct_ends _ _ _ (LabelOp.execute_blind op _)
  · exact op.execute_dialogue w input sink

/-- **Only reads with an address and stops flush the output and look at the input.**  What other
instructions exchange with their streams is what they write. -/
theorem PlainOp.wrote_of_dialogue {op : PlainOp} (no_stop : op ≠ .stop)
    (no_read : ∀ format, op = .read format → w.stack.peek? = none) (e : Exchange)
    (member : e ∈ ((op.dialogue w).conduct input sink).2) :
    ∃ kept failure, e = .wrote kept failure := by
  rcases w with ⟨stack, calls, heap, streams⟩
  cases op with
  | stop => exact absurd rfl no_stop
  | duplicate | swap | discard | calculate _ | store | load | ret => cases member
  | print format =>
    rcases stack.eq_empty_or_push with rfl | ⟨stack, word, rfl⟩
    · cases member
    · rw [dialogue_print] at member
      cases printed : format.print word with
      | error cause =>
        rw [printed] at member
        cases member
      | ok text =>
        rw [printed] at member
        cases answer : (sink.write (Utf8.encode text)).1 <;>
          simp only [Dialogue.conduct, answer, Dialogue.answered, List.mem_singleton] at member <;>
          exact ⟨_, _, member⟩
  | read format =>
    rcases stack.eq_empty_or_push with rfl | ⟨stack, address, rfl⟩
    · cases member
    · have empty := no_read format rfl
      rw [Stack.peek?_push] at empty
      cases empty

theorem Node.wrote_of_dialogue {node : Node} (no_stop : node.instruction ≠ .plain .stop)
    (no_read : ∀ format, node.instruction = .plain (.read format) → w.stack.peek? = none)
    (e : Exchange) (member : e ∈ ((node.dialogue w).conduct input sink).2) :
    ∃ kept failure, e = .wrote kept failure := by
  rcases node with ⟨index, op | op | op, next, branch⟩
  · cases member
  · cases member
  · exact PlainOp.wrote_of_dialogue w input sink (fun same => no_stop (congrArg _ same))
      (fun format same => no_read format (congrArg _ same)) e member

end Nodes

/-- **A step leaves what its node leaves** of the workspace, whether it goes on or not. -/
theorem Machine.Executes.left_eq {program : Program} {m : Machine} {node : Node}
    (executes : m.Executes program node) (config : Config) (streams : Streams) :
    let left := leftOf (node.execute (m.workspace streams))
    ∃ slot state, (m.step config program streams).machine =
        Machine.ofWorkspace left slot state (m.steps + 1) ∧
      (m.step config program streams).streams = left.streams := by
  intro left
  rw [executes.step_eq]
  cases ended : node.execute (m.workspace streams) with
  | error cause w =>
    simp only [left, ended]
    exact ⟨_, _, rfl, rfl⟩
  | ok move w =>
    simp only [left, ended]
    cases move with
    | halt => exact ⟨_, _, rfl, rfl⟩
    | branch slot => exact ⟨_, _, rfl, rfl⟩
    | next => cases node.next <;> exact ⟨_, _, rfl, rfl⟩

end Whitespace
