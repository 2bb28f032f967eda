import Whitespace.Proofs.Unwinding

/-!
# What a run prints and reads

Along a run it is noted what is printed and what is read.  A print is noted when its instruction
succeeds, and a read when there is an address to read to, with the word that it has stored there, if
it succeeds.  The step that executes such an instruction may still return a fault, because nothing
stands behind it in the program.

Only prints and reads, and the flushes that go with reads and with the stop, touch the streams
(`Machine.Executes.streams_other`).

## Main definitions

* `Machine.print?`, `Machine.read?` — what the next step prints or reads.
* `Machine.journal note config program n m streams` — what is noted in the next `n` steps.
* `Machine.printed`, `Machine.receipts` — the journals of the two.
-/

namespace Whitespace

/-- A word that has been printed, and in which format. -/
structure Printed where
  format : Format
  word : Int64
  deriving DecidableEq, Repr

/-- The text that a printed word gives: its decimal form, or the character that it is the code
of. -/
def Printed.text (p : Printed) : String :=
  match p.format with
  | .number => toString p.word.toInt
  | .character => String.singleton (Char.ofNat p.word.toInt.toNat)

/-- A read, its address, and the word that it has stored there, if it has succeeded. -/
structure Receipt where
  format : Format
  address : Int64
  stored : Option Int64
  deriving DecidableEq, Repr

namespace Machine

/-- What the instructions of a machine work on. -/
def workspace (m : Machine) (streams : Streams) : Workspace :=
  ⟨m.stack, m.calls, m.heap, streams⟩

/-- The node that the next step executes, if the machine runs and stands at one. -/
def next? (program : Program) (m : Machine) : Option Node :=
  if m.state = .running then program.node? m.current else none

/-- What the next step prints, if it executes a print that succeeds. -/
def print? (program : Program) (m : Machine) (streams : Streams) : Option Printed :=
  match m.next? program, m.stack.peek? with
  | some node, some word =>
    match node.instruction, node.execute (m.workspace streams) with
    | .plain (.print format), .ok _ _ => some ⟨format, word⟩
    | _, _ => none
  | _, _ => none

/-- What the next step reads, if it executes a read and there is an address. -/
def read? (program : Program) (m : Machine) (streams : Streams) : Option Receipt :=
  match m.next? program, m.stack.peek? with
  | some node, some address =>
    match node.instruction, node.execute (m.workspace streams) with
    | .plain (.read format), .ok _ w => some ⟨format, address, some (w.heap.get address)⟩
    | .plain (.read format), .error _ _ => some ⟨format, address, none⟩
    | _, _ => none
  | _, _ => none

/-- What is noted in the next steps, one after another. -/
def journal {α : Type} (note : Machine → Streams → Option α) (config : Config) (program : Program) :
    Nat → Machine → Streams → List α
  | 0, _, _ => []
  | n + 1, m, streams =>
    let outcome := m.step config program streams
    (note m streams).toList ++ journal note config program n outcome.machine outcome.streams

/-- What is printed in the next steps. -/
def printed (config : Config) (program : Program) : Nat → Machine → Streams → List Printed :=
  journal (print? program) config program

/-- What is read in the next steps. -/
def receipts (config : Config) (program : Program) : Nat → Machine → Streams → List Receipt :=
  journal (read? program) config program

end Machine

/-! ## Instructions that neither print nor read -/

/-- Going where a call or a jump leads leaves the streams alone. -/
theorem World.leave_streams (w : World) (target : Option Nat) :
    (w.leave target).2.streams = w.streams := by
  cases target <;> rfl

theorem NumberOp.effect_streams (op : NumberOp) (operand : Int64) (w : World) :
    (op.effect operand w).2.streams = w.streams := by
  cases op with
  | push => rfl
  | copy =>
    simp only [effect]
    split
    · rfl
    · split <;> rfl
  | slide =>
    simp only [effect]
    split
    · rfl
    · split
      · rfl
      · split <;> rfl

theorem LabelOp.effect_streams (op : LabelOp) (follow target : Option Nat) (w : World) :
    (op.effect follow target w).2.streams = w.streams := by
  cases op with
  | define => rfl
  | call => cases target <;> rfl
  | jump => exact w.leave_streams target
  | jumpIf condition =>
    simp only [effect]
    split
    · rfl
    · split
      · exact World.leave_streams _ target
      · rfl

theorem PlainOp.effect_streams {op : PlainOp} (no_print : ∀ format, op ≠ .print format)
    (no_read : ∀ format, op ≠ .read format) (w : World) :
    (op.effect w).2.streams = w.streams ∨ (op.effect w).2.streams = w.streams.flush.2 := by
  rcases w with ⟨stack, calls, heap, streams⟩
  cases op with
  | print format => exact absurd rfl (no_print format)
  | read format => exact absurd rfl (no_read format)
  | stop =>
    right
    simp only [effect]
    rcases streams.flush with ⟨_ | message, flushed⟩ <;> rfl
  | duplicate | discard | load => rcases stack with _ | ⟨top, stack⟩ <;> exact .inl rfl
  | swap | store => rcases stack with _ | ⟨top, _ | ⟨below, stack⟩⟩ <;> exact .inl rfl
  | calculate calculation =>
    rcases stack with _ | ⟨right, _ | ⟨left, stack⟩⟩
    · exact .inl rfl
    · exact .inl rfl
    · simp only [effect]
      split <;> exact .inl rfl
  | ret => rcases calls with _ | ⟨_ | slot, calls⟩ <;> exact .inl rfl

/-- **Instructions that neither print nor read** leave the streams alone or flush the output. -/
theorem Instruction.effect_streams {i : Instruction}
    (no_print : ∀ format, i ≠ .plain (.print format))
    (no_read : ∀ format, i ≠ .plain (.read format)) (follow target : Option Nat) (w : World) :
    (i.effect follow target w).2.streams = w.streams ∨
      (i.effect follow target w).2.streams = w.streams.flush.2 := by
  cases i with
  | number op operand => exact .inl (op.effect_streams operand w)
  | label op name => exact .inl (op.effect_streams follow target w)
  | plain op =>
    exact PlainOp.effect_streams (fun format same => no_print format (congrArg _ same))
      (fun format same => no_read format (congrArg _ same)) w

/-- With nothing on the stack, a print and a read leave the streams alone. -/
theorem PlainOp.effect_streams_nil {w : World} (empty : w.stack = []) (format : Format) :
    ((print format).effect w).2.streams = w.streams ∧
      ((read format).effect w).2.streams = w.streams := by
  constructor
  · simp only [effect, empty]
    cases w.streams.output <;> rfl
  · simp only [effect, empty]
    cases w.streams.input <;> rfl

/-! ## Steps -/

namespace Machine

variable {config : Config} {program : Program} {m : Machine} {streams : Streams} {node : Node}

theorem next?_eq_some_iff : m.next? program = some node ↔ m.Executes program node := by
  rw [next?, Option.ite_none_right_eq_some]
  exact ⟨fun ⟨running, stands⟩ => ⟨running, stands⟩, fun ⟨running, stands⟩ => ⟨running, stands⟩⟩

/-- A step that executes no node leaves the streams alone. -/
theorem streams_of_idle (idle : m.next? program = none) :
    (m.step config program streams).streams = streams := by
  by_cases running : m.state = .running
  · rw [next?, if_pos running] at idle
    simp only [step, running, idle]
    rfl
  · rw [step_of_not_running config program streams running]

/-- A step leaves the streams that the effect of its node leaves. -/
theorem streams_of_executes (executes : m.Executes program node) (streams : Streams)
    (config : Config) :
    (m.step config program streams).streams =
      (node.instruction.effect node.next node.branch (m.walker id streams).world).2.streams := by
  rw [← Walker.visit_world, executes.visit streams config]
  rfl

/-- What a node makes of the workspace of a machine, as plain data. -/
theorem turn_workspace (m : Machine) (streams : Streams) (node : Node) :
    turn id (node.execute (m.workspace streams)) =
      node.instruction.effect node.next node.branch (m.walker id streams).world := by
  have effect := node.execute_effect id (m.workspace streams)
  rwa [Option.map_id_fun, id, id] at effect

/-- The result of a step whose instruction goes on to the next node. -/
def onward (node : Node) : Except Fault State :=
  match node.next with
  | some _ => .ok .running
  | none => .error ⟨.prematureEnd, some ⟨node.instruction, node.index⟩⟩

/-- A step goes on if the effect of its node does. -/
theorem result_of_next (executes : m.Executes program node) (config : Config)
    (succeeded :
      (node.instruction.effect node.next node.branch (m.walker id streams).world).1 = .ok .next) :
    (m.step config program streams).result = onward node := by
  have result : ((m.walker id streams).visit node).1 = (m.step config program streams).result :=
    congrArg Prod.fst (executes.visit streams config)
  rw [← result, Walker.visit, onward]
  generalize node.instruction.effect node.next node.branch (m.walker id streams).world = turn
    at succeeded
  obtain ⟨result, world⟩ := turn
  obtain rfl : result = .ok .next := succeeded
  cases node.next <;> rfl

/-- A step fails for the cause that the effect of its node does. -/
theorem result_of_error (executes : m.Executes program node) (config : Config) {cause : Cause}
    (failed :
      (node.instruction.effect node.next node.branch (m.walker id streams).world).1 =
        .error cause) :
    (m.step config program streams).result =
      .error ⟨cause, some ⟨node.instruction, node.index⟩⟩ := by
  have result : ((m.walker id streams).visit node).1 = (m.step config program streams).result :=
    congrArg Prod.fst (executes.visit streams config)
  rw [← result, Walker.visit]
  generalize node.instruction.effect node.next node.branch (m.walker id streams).world = turn
    at failed
  obtain ⟨result, world⟩ := turn
  obtain rfl : result = .error cause := failed
  rfl

/-- An empty stack, as plain data. -/
theorem walker_stack_nil (streams : Streams) (empty : m.stack.peek? = none) :
    (m.walker id streams).world.stack = [] := by
  rcases m.stack.eq_empty_or_push with same | ⟨stack, _, pushed⟩
  · rw [walker, Workspace.world, same]
    rfl
  · rw [pushed, Stack.peek?_push] at empty
    cases empty

/-- The next step executes an instruction without operand, and there is a word on the stack. -/
structure Finds (program : Program) (m : Machine) (node : Node) (op : PlainOp) (word : Int64) :
    Prop extends m.Executes program node where
  instruction : node.instruction = .plain op
  top : m.stack.peek? = some word

section Finds

variable {op : PlainOp} {word : Int64} (finds : m.Finds program node op word) (streams : Streams)

include finds

/-- The word that is found is on top of a stack. -/
theorem Finds.stack_eq : ∃ below : Stack, m.stack = below.push word := by
  have top := finds.top
  rcases m.stack.eq_empty_or_push with empty | ⟨below, _, pushed⟩
  · rw [empty] at top
    cases top
  · rw [pushed, Stack.peek?_push] at top
    cases top
    exact ⟨below, pushed⟩

/-- The word that is found, as plain data. -/
theorem Finds.stack : ∃ below, (m.walker id streams).world.stack = word :: below := by
  obtain ⟨below, pushed⟩ := finds.stack_eq
  exact ⟨below.toList.reverse, by simp [walker, Workspace.world, pushed]⟩

theorem Finds.effect :
    node.instruction.effect node.next node.branch (m.walker id streams).world =
      op.effect (m.walker id streams).world := by
  rw [finds.instruction]
  rfl

theorem Finds.step_streams (config : Config) :
    (m.step config program streams).streams =
      (op.effect (m.walker id streams).world).2.streams := by
  rw [streams_of_executes finds.toExecutes streams config, finds.effect]

/-- The instruction and the word are known from the machine. -/
theorem Finds.unique {node' : Node} {op' : PlainOp} {word' : Int64}
    (finds' : m.Finds program node' op' word') : op = op' := by
  obtain rfl := Option.some.inj (finds.stands.symm.trans finds'.stands)
  exact Instruction.plain.inj (finds.instruction.symm.trans finds'.instruction)

end Finds

/-! ## What is noted -/

variable {format : Format} {word : Int64}

/-- A print is noted if its effect is no failure. -/
theorem Finds.print?_eq (finds : m.Finds program node (.print format) word) (streams : Streams) :
    print? program m streams =
      match ((PlainOp.print format).effect (m.walker id streams).world).1 with
      | .ok _ => some ⟨format, word⟩
      | .error _ => none := by
  rw [← finds.effect, ← turn_workspace]
  simp only [print?, next?_eq_some_iff.mpr finds.toExecutes, finds.top, finds.instruction]
  cases node.execute (m.workspace streams) <;> rfl

/-- A read is noted with what its effect leaves at the address. -/
theorem Finds.read?_eq (finds : m.Finds program node (.read format) word) (streams : Streams) :
    read? program m streams =
      match (PlainOp.read format).effect (m.walker id streams).world with
      | (.ok _, world) => some ⟨format, word, some (world.heap word)⟩
      | (.error _, _) => some ⟨format, word, none⟩ := by
  rw [← finds.effect, ← turn_workspace]
  simp only [read?, next?_eq_some_iff.mpr finds.toExecutes, finds.top, finds.instruction]
  cases node.execute (m.workspace streams) <;> rfl

/-- Only prints are noted as prints. -/
theorem exists_finds_of_print? {p : Printed} (noted : print? program m streams = some p) :
    ∃ node, m.Finds program node (.print p.format) p.word := by
  rw [print?] at noted
  split at noted
  · next node word executed top =>
    split at noted
    · next print _ =>
      cases noted
      exact ⟨node, next?_eq_some_iff.mp executed, print, top⟩
    · cases noted
  · cases noted

/-- Only reads are noted as reads. -/
theorem exists_finds_of_read? {r : Receipt} (noted : read? program m streams = some r) :
    ∃ node, m.Finds program node (.read r.format) r.address := by
  rw [read?] at noted
  split at noted
  · next node address executed top =>
    split at noted
    · next read _ =>
      cases noted
      exact ⟨node, next?_eq_some_iff.mp executed, read, top⟩
    · next read _ =>
      cases noted
      exact ⟨node, next?_eq_some_iff.mp executed, read, top⟩
    · cases noted
  · cases noted

/-- A read is no print. -/
theorem Finds.print?_eq_none (finds : m.Finds program node (.read format) word)
    (streams : Streams) : print? program m streams = none := by
  cases noted : print? program m streams with
  | none => rfl
  | some p =>
    obtain ⟨_, print⟩ := exists_finds_of_print? noted
    cases finds.unique print

/-- **What a step does to the streams**: it prints a word, or it reads to an address, or nothing is
noted and the streams stay as they are, or the output is flushed. -/
theorem step_streams (config : Config) (program : Program) (m : Machine) (streams : Streams) :
    (∃ node format word, m.Finds program node (.print format) word) ∨
      (∃ node format address, m.Finds program node (.read format) address) ∨
      print? program m streams = none ∧
        ((m.step config program streams).streams = streams ∨
          (m.step config program streams).streams = streams.flush.2) := by
  by_cases print : ∃ node format word, m.Finds program node (.print format) word
  · exact .inl print
  by_cases read : ∃ node format address, m.Finds program node (.read format) address
  · exact .inr (.inl read)
  refine .inr (.inr ⟨?_, ?_⟩)
  · cases noted : print? program m streams with
    | none => rfl
    | some p =>
      obtain ⟨node, finds⟩ := exists_finds_of_print? noted
      exact absurd ⟨node, p.format, p.word, finds⟩ print
  · cases executed : m.next? program with
    | none => exact .inl (streams_of_idle executed)
    | some node =>
      have executes := next?_eq_some_iff.mp executed
      rw [streams_of_executes executes streams config]
      -- A print or a read that is not noted has found nothing on the stack.
      by_cases io : ∃ format, node.instruction = .plain (.print format) ∨
          node.instruction = .plain (.read format)
      · obtain ⟨format, io⟩ := io
        have empty : m.stack.peek? = none := by
          cases top : m.stack.peek? with
          | none => rfl
          | some word =>
            cases io with
            | inl same => exact absurd ⟨node, format, word, executes, same, top⟩ print
            | inr same => exact absurd ⟨node, format, word, executes, same, top⟩ read
        obtain ⟨printing, reading⟩ :=
          PlainOp.effect_streams_nil (walker_stack_nil streams empty) format
        left
        cases io with
        | inl same =>
          rw [same]
          exact printing
        | inr same =>
          rw [same]
          exact reading
      · have no_print : ∀ format, node.instruction ≠ .plain (.print format) :=
          fun format same => io ⟨format, .inl same⟩
        have no_read : ∀ format, node.instruction ≠ .plain (.read format) :=
          fun format same => io ⟨format, .inr same⟩
        exact Instruction.effect_streams no_print no_read node.next node.branch _

/-- A run comes to the streams that some steps come to. -/
theorem streams_of_resume {fuel : Nat} {events : Array Event} {r : Run}
    (h : resume config program fuel m streams events = some r) :
    ∃ n, r.streams = (after config program n m streams).2 := by
  induction fuel generalizing m streams events with
  | zero => cases h
  | succ fuel ih =>
    rw [resume] at h
    cases ended : (m.step config program streams).result with
    | error f =>
      simp only [ended] at h
      cases h
      exact ⟨1, rfl⟩
    | ok state =>
      cases state with
      | running =>
        simp only [ended] at h
        obtain ⟨n, same⟩ := ih h
        exact ⟨n + 1, same⟩
      | halted | faulted =>
        simp only [ended] at h
        cases h
        exact ⟨1, rfl⟩

end Machine

end Whitespace
