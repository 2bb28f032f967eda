import Whitespace.Proofs.Consistency
import Whitespace.Proofs.Flushing
import Whitespace.Proofs.PrematureEnd
import Whitespace.Proofs.SparedHeap

/-!
# What a fault leaves behind

An instruction may fail after it has taken words off the stack, and they are not put back.  How many
there are depends on the instruction, the cause and, if the stack is too short, on its size: this is
a table (`Instruction.taken?`).  Nothing else is damaged (`damage_of_history`): the rest of the
stack, the continuations, the heap and the place of the machine are as they were.

An instruction whose cause is that the program has ended has not failed at all: it has done its
work, and there is nothing to go on to.

## Main definitions

* `Instruction.taken? i size cause` — how many words the instruction has taken when it fails.
* `Turn.Takes w taken t` — a turn that fails has taken so many words, and nothing else.
-/

namespace Whitespace

/-! ## The table -/

/-- How many words an instruction with a number has taken off a stack of the given size when it
fails; it does not fail for a cause that has no entry. -/
def NumberOp.taken? (op : NumberOp) (size : Nat) (cause : Cause) : Option Nat :=
  match op, cause with
  | copy, .invalidOperand _ | slide, .invalidOperand _ | copy, .stackUnderflow => some 0
  | slide, .stackUnderflow => some (min 1 size)
  | _, _ => none

/-- How many words an instruction with a label has taken when it fails. -/
def LabelOp.taken? (op : LabelOp) (cause : Cause) : Option Nat :=
  match op, cause with
  | jumpIf _, .stackUnderflow => some 0
  | _, _ => none

/-- How many words an instruction without operand has taken off a stack of the given size when it
fails.  One that takes two words has taken all there are when there are less. -/
def PlainOp.taken? (op : PlainOp) (size : Nat) (cause : Cause) : Option Nat :=
  match op, cause with
  | ret, .returnWithoutCall | stop, .io _ | print _, .noStream .output
  | read _, .noStream .input => some 0
  | duplicate, .stackUnderflow | discard, .stackUnderflow | load, .stackUnderflow
  | print _, .stackUnderflow | read _, .stackUnderflow => some 0
  | swap, .stackUnderflow | calculate _, .stackUnderflow | store, .stackUnderflow =>
    if size < 2 then some size else none
  | print .character, .invalidCharacter _ | read _, .endOfInput | read _, .malformedNumber _
  | print _, .io _ | read _, .io _ => some 1
  | calculate _, .divideByZero => some 2
  | _, _ => none

/-- How many words an instruction has taken off a stack of the given size when it fails. -/
def Instruction.taken? (i : Instruction) (size : Nat) (cause : Cause) : Option Nat :=
  match i with
  | number op _ => op.taken? size cause
  | label op _ => op.taken? cause
  | plain op => op.taken? size cause

/-! ## Effects that fail -/

/-- A turn that fails has taken as many words as a table says, and has left the rest of the stack
and the continuations.  Nothing is said of flaws, and of the end of the program. -/
def Turn.Takes (w : World) (taken : Cause → Option Nat) (t : Turn) : Prop :=
  ∀ cause, t.1 = .error cause → cause.Consistent → cause ≠ .prematureEnd →
    ∃ count, taken cause = some count ∧ count ≤ w.stack.length ∧
      t.2.stack = w.stack.drop count ∧ t.2.calls = w.calls

variable {w w' : World} {taken : Cause → Option Nat} {follow target : Option Nat}

theorem takes_of_ok {t : Turn} {move : Move} (succeeds : t.1 = .ok move) :
    Turn.Takes w taken t := by
  intro cause failed
  rw [succeeds] at failed
  cases failed

theorem takes_proceed (stack : List Int64) : Turn.Takes w taken (w'.proceed stack) :=
  takes_of_ok rfl

theorem takes_refuse {stack : List Int64} {cause : Cause} {count : Nat}
    (entry : taken cause = some count) (enough : count ≤ w.stack.length)
    (rest : stack = w.stack.drop count) (same : w'.calls = w.calls) :
    Turn.Takes w taken (w'.refuse stack cause) := by
  intro _ failed _ _
  cases failed
  exact ⟨count, entry, enough, rest, same⟩

/-- That a call or a jump leads nowhere is a flaw. -/
theorem takes_leave (w w' : World) (taken : Cause → Option Nat) (target : Option Nat) :
    Turn.Takes w taken (w'.leave target) := by
  cases target with
  | some slot => exact takes_of_ok rfl
  | none =>
    intro cause failed consistent
    cases failed
    exact absurd rfl (consistent.ne _)

theorem NumberOp.effect_takes (op : NumberOp) (operand : Int64) (w : World) :
    Turn.Takes w (op.taken? w.stack.length) (op.effect operand w) := by
  rcases w with ⟨stack, calls, heap, streams⟩
  cases op with
  | push => exact takes_proceed _
  | copy =>
    simp only [effect]
    split
    · exact takes_refuse rfl (Nat.zero_le _) rfl rfl
    · split
      · exact takes_proceed _
      · exact takes_refuse rfl (Nat.zero_le _) rfl rfl
  | slide =>
    simp only [effect]
    split
    · exact takes_refuse rfl (Nat.zero_le _) rfl rfl
    · cases stack with
      | nil => exact takes_refuse rfl (Nat.zero_le _) rfl rfl
      | cons top below =>
        have one : min 1 (top :: below).length = 1 := by simp
        dsimp only
        split
        · exact takes_refuse (congrArg some one) (by simp) rfl rfl
        · exact takes_proceed _

theorem LabelOp.effect_takes (op : LabelOp) (follow target : Option Nat) (w : World) :
    Turn.Takes w op.taken? (op.effect follow target w) := by
  cases op with
  | define =>
    intro cause failed consistent
    cases failed
    exact absurd rfl (consistent.ne _)
  | call =>
    cases target with
    | some slot => exact takes_of_ok rfl
    | none => exact takes_leave w w _ none
  | jump => exact takes_leave w w _ target
  | jumpIf condition =>
    rcases w with ⟨_ | ⟨word, below⟩, calls, heap, streams⟩
    · exact takes_refuse rfl (Nat.zero_le _) rfl rfl
    · simp only [effect]
      split
      · exact takes_leave _ _ _ target
      · exact takes_proceed _

/-- Printing fails only if the word is no character. -/
theorem Format.print_fails {format : Format} {word : Int64} {cause : Cause}
    (failed : format.print word = .error cause) :
    format = .character ∧ cause = .invalidCharacter word := by
  cases format with
  | number => cases failed
  | character =>
    simp only [print] at failed
    split at failed
    · cases failed
    · cases failed
      exact ⟨rfl, rfl⟩

theorem PlainOp.effect_takes (op : PlainOp) (w : World) :
    Turn.Takes w (op.taken? w.stack.length) (op.effect w) := by
  rcases w with ⟨stack, calls, heap, streams⟩
  cases op with
  | duplicate | discard | load =>
    rcases stack with _ | ⟨top, below⟩
    · exact takes_refuse rfl (Nat.zero_le _) rfl rfl
    · exact takes_proceed _
  | swap | store =>
    rcases stack with _ | ⟨top, _ | ⟨other, below⟩⟩
    · exact takes_refuse rfl (Nat.zero_le _) rfl rfl
    · exact takes_refuse rfl (Nat.le_refl 1) rfl rfl
    · exact takes_proceed _
  | calculate calculation =>
    rcases stack with _ | ⟨right, _ | ⟨left, below⟩⟩
    · exact takes_refuse rfl (Nat.zero_le _) rfl rfl
    · exact takes_refuse rfl (Nat.le_refl 1) rfl rfl
    · simp only [effect]
      split
      · exact takes_refuse rfl (by simp) rfl rfl
      · exact takes_proceed _
  | ret =>
    rcases calls with _ | ⟨_ | slot, calls⟩
    · intro cause failed _ _
      cases failed
      exact ⟨0, rfl, Nat.zero_le _, rfl, rfl⟩
    · intro cause failed _ inside
      cases failed
      exact absurd rfl inside
    · exact takes_of_ok rfl
  | stop =>
    simp only [effect]
    split
    · exact takes_of_ok rfl
    · intro cause failed _ _
      cases failed
      exact ⟨0, rfl, Nat.zero_le _, rfl, rfl⟩
  | print format =>
    rcases streams with ⟨input, _ | sink⟩
    · exact takes_refuse rfl (Nat.zero_le _) rfl rfl
    · rcases stack with _ | ⟨word, below⟩
      · exact takes_refuse rfl (Nat.zero_le _) rfl rfl
      · simp only [effect]
        split
        · next cause failed =>
          obtain ⟨rfl, rfl⟩ := Format.print_fails failed
          exact takes_refuse rfl (by simp) rfl rfl
        · split
          · exact takes_proceed _
          · next message _ =>
            have entry : (print format).taken? (below.length + 1) (.io message) = some 1 := by
              cases format <;> rfl
            exact takes_refuse entry (by simp) rfl rfl
  | read format =>
    rcases streams with ⟨_ | input, output⟩
    · exact takes_refuse rfl (Nat.zero_le _) rfl rfl
    · rcases stack with _ | ⟨address, below⟩
      · exact takes_refuse rfl (Nat.zero_le _) rfl rfl
      · simp only [effect]
        split
        · exact takes_refuse rfl (by simp) rfl rfl
        · split
          · next cause rest failed =>
            cases format.reading_fails input cause rest failed
            · exact takes_refuse rfl (by simp) rfl rfl
            · exact takes_refuse rfl (by simp) rfl rfl
            · exact takes_refuse rfl (by simp) rfl rfl
          · exact takes_proceed _

/-- **An instruction that fails has taken as many words as the table says.** -/
theorem Instruction.effect_takes (i : Instruction) (follow target : Option Nat) (w : World) :
    Turn.Takes w (i.taken? w.stack.length) (i.effect follow target w) := by
  cases i with
  | number op operand => exact op.effect_takes operand w
  | label op name => exact op.effect_takes follow target w
  | plain op => exact op.effect_takes w

/-! ## Effects on the input -/

/-- **Only a read touches the input**, if it has an address and the flush before it succeeds. -/
theorem Instruction.effect_input {i : Instruction} {follow target : Option Nat} {w : World}
    (touched : (i.effect follow target w).2.streams.input ≠ w.streams.input) :
    (∃ format, i = .plain (.read format)) ∧ w.stack ≠ [] ∧ w.streams.flush.1 = none := by
  by_cases read : ∃ format, i = .plain (.read format)
  · refine ⟨read, ?_⟩
    obtain ⟨format, rfl⟩ := read
    rcases w with ⟨stack, calls, heap, _ | input, output⟩
    · exact absurd rfl touched
    · rcases stack with _ | ⟨address, below⟩
      · exact absurd rfl touched
      · refine ⟨List.cons_ne_nil _ _, ?_⟩
        -- The flush leaves the input, so a read whose flush fails has not touched it.
        have same := Streams.flush_input ⟨some input, output⟩
        simp only [effect, PlainOp.effect] at touched
        split at touched
        · next flushed =>
          rw [flushed] at same
          exact absurd same touched
        · next flushed => rw [flushed]
  · exfalso
    apply touched
    by_cases print : ∃ format, i = .plain (.print format)
    · obtain ⟨format, rfl⟩ := print
      simp only [effect, PlainOp.effect]
      split
      · rfl
      · rfl
      · split
        · rfl
        · split <;> rfl
    · obtain same | flushed := effect_streams (fun format h => print ⟨format, h⟩)
        (fun format h => read ⟨format, h⟩) follow target w
      · rw [same]
      · rw [flushed, Streams.flush_input]

/-! ## Steps -/

namespace Machine

variable {config : Config} {program : Program} {m : Machine} {streams : Streams} {node : Node}

/-- **What a node that fails leaves**: the stack without the words that it has taken, and all else
but the streams as it was. -/
theorem taken_of_error {cause : Cause} {w : Workspace}
    (failed : node.execute (m.workspace streams) = .error cause w) (consistent : cause.Consistent)
    (inside : cause ≠ .prematureEnd) :
    ∃ count, node.instruction.taken? m.stack.size cause = some count ∧ count ≤ m.stack.size ∧
      w = ⟨m.stack.drop count, m.calls, m.heap, w.streams⟩ := by
  have turned := turn_workspace m streams node
  rw [failed] at turned
  have words : (m.walker id streams).world.stack = m.stack.toList.reverse := rfl
  have size : (m.walker id streams).world.stack.length = m.stack.size := by
    rw [words, List.length_reverse, Stack.length_toList]
  obtain ⟨count, entry, enough, stack, calls⟩ := node.instruction.effect_takes node.next node.branch
    (m.walker id streams).world cause (congrArg Prod.fst turned).symm consistent inside
  rw [size] at entry enough
  refine ⟨count, entry, enough, ?_⟩
  rw [← turned] at stack calls
  have left : w.stack = m.stack.drop count := by
    apply Stack.ext_toList
    apply List.reverse_injective
    rw [Stack.toList_drop, ← Stack.length_toList, ← List.drop_reverse]
    exact stack
  have saved : w.calls = m.calls := by
    simpa [turn, Workspace.world] using calls
  have heap : w.heap = m.heap := node.execute_spares _ cause w failed
  rw [← left, ← saved, ← heap]

/-- **A step that fails has taken words** and nothing else. -/
theorem Executes.taken_of_step {f : Fault} (executes : m.Executes program node)
    (failed : (m.step config program streams).result = .error f) (consistent : f.cause.Consistent)
    (inside : f.cause ≠ .prematureEnd) :
    ∃ count, node.instruction.taken? m.stack.size f.cause = some count ∧ count ≤ m.stack.size ∧
      (m.step config program streams).machine =
        { m with stack := m.stack.drop count, state := .faulted, steps := m.steps + 1 } := by
  have step := executes.step_eq config streams
  cases ended : node.execute (m.workspace streams) with
  | error cause w =>
    rw [ended] at step
    rw [step] at failed ⊢
    cases failed
    obtain ⟨count, entry, enough, left⟩ := taken_of_error ended consistent inside
    refine ⟨count, entry, enough, ?_⟩
    rw [left]
    rfl
  | ok move w =>
    -- Such a step fails only because nothing follows.
    exfalso
    rw [ended] at step
    rw [step] at failed
    cases move with
    | halt => cases failed
    | branch slot => cases failed
    | next =>
      cases follows : node.next with
      | some slot =>
        rw [follows] at failed
        cases failed
      | none =>
        rw [follows] at failed
        cases failed
        exact inside rfl

/-- **A return that leaves the program** has taken the continuation, and nothing else. -/
theorem Executes.ret_of_prematureEnd {f : Fault} (executes : m.Executes program node)
    (ret : node.instruction = .plain .ret)
    (failed : (m.step config program streams).result = .error f) (left : f.cause = .prematureEnd) :
    ∃ rest, m.calls = none :: rest ∧
      (m.step config program streams).machine =
        { m with calls := rest, state := .faulted, steps := m.steps + 1 } ∧
      (m.step config program streams).streams = streams := by
  cases saved : m.calls with
  | nil =>
    rw [executes.ret_of_nil streams ret saved config] at failed
    cases failed
    cases left
  | cons continuation rest =>
    cases continuation with
    | some slot =>
      rw [(executes.ret streams ret saved config).2.1] at failed
      cases failed
    | none =>
      refine ⟨rest, rfl, ?_⟩
      have ended : node.execute (m.workspace streams) =
          .error .prematureEnd ⟨m.stack, rest, m.heap, streams⟩ := by
        rw [node.execute_eq, ret, workspace, saved]
        rfl
      rw [executes.step_eq, ended]
      exact ⟨rfl, rfl⟩

/-- **Only the step of a read touches the input**, if it has an address and the flush before it
succeeds. -/
theorem Executes.read_of_input (executes : m.Executes program node)
    (touched : (m.step config program streams).streams.input ≠ streams.input) :
    (∃ format, node.instruction = .plain (.read format)) ∧ m.stack.size ≠ 0 ∧
      streams.flush.1 = none := by
  have turned := congrArg (fun t : Turn => t.2.streams.input) (turn_workspace m streams node)
  have left : (leftOf (node.execute (m.workspace streams))).streams.input =
      (turn id (node.execute (m.workspace streams))).2.streams.input := by
    cases node.execute (m.workspace streams) <;> rfl
  rw [executes.streams_eq, left] at touched
  obtain ⟨read, words, flushed⟩ := Instruction.effect_input (turned ▸ touched)
  refine ⟨read, ?_, flushed⟩
  intro empty
  apply words
  rw [← List.length_eq_zero_iff, ← empty, ← Stack.length_toList]
  exact List.length_reverse

end Machine

/-- **What a fault leaves behind.**  Let a machine of a linked program have any history, and let its
next step fail.  The machine has faulted, and one more step is counted.

* If the program has not ended, the stack has lost as many words from its top as the table says for
  the instruction, the cause and the size of the stack.  The continuations, the heap and the place
  of the machine are as they were.
* If the program has ended, the instruction has done its work, or it is a return, which has taken
  the continuation.
* The input has been touched only by a read that had an address and whose flush has succeeded. -/
theorem damage_of_history {is : List Instruction} {l : Linking} (h : link is = .ok l)
    {config : Config} {calls : List Call} {faults : List Fault} {m : Machine}
    (history : Machine.History config l.program calls faults m) {streams : Streams} {f : Fault}
    (failed : (m.step config l.program streams).result = .error f) :
    let o := m.step config l.program streams
    ∃ node, m.Executes l.program node ∧ f.site = some ⟨node.instruction, node.index⟩ ∧
      (f.cause ≠ .prematureEnd → ∃ count,
        node.instruction.taken? m.stack.size f.cause = some count ∧ count ≤ m.stack.size ∧
        o.machine =
          { m with stack := m.stack.drop count, state := .faulted, steps := m.steps + 1 }) ∧
      (f.cause = .prematureEnd →
        Machine.FallsOff config l.program m streams node ∨
        node.instruction = .plain .ret ∧ ∃ rest, m.calls = none :: rest ∧
          o.machine = { m with calls := rest, state := .faulted, steps := m.steps + 1 } ∧
          o.streams = streams) ∧
      (o.streams.input ≠ streams.input →
        (∃ format, node.instruction = .plain (.read format)) ∧ m.stack.size ≠ 0 ∧
          streams.flush.1 = none) := by
  intro o
  have closed := closed_of_link h
  obtain ⟨valid, -⟩ := history.induction (P := Machine.Valid l.program) (Q := fun _ => True)
    (Machine.valid_start closed)
    (fun m streams valid => (m.step_valid config streams closed valid).1)
    (fun _ _ _ _ _ => trivial)
  obtain ⟨consistent, node, stands, site⟩ := (m.step_valid config streams closed valid).2 f failed
  have running : m.state = .running := by
    by_contra stopped
    rw [Machine.step_of_not_running config l.program streams stopped] at failed
    cases failed
  have executes : m.Executes l.program node := ⟨running, stands⟩
  refine ⟨node, executes, site, executes.taken_of_step failed consistent, ?_,
    executes.read_of_input⟩
  intro left
  obtain ⟨ret, -⟩ | falls :=
    executes.prematureEnd_cases (Linking.sequential_of_link h) failed left
  · exact .inr ⟨ret, executes.ret_of_prematureEnd ret failed left⟩
  · exact .inl falls

/-- Dividing by zero takes the two topmost of three words. -/
theorem damage_of_history_division :
    let is := [.number .push 5, .number .push 3, .number .push 0, .plain (.calculate .divide)]
    ∃ l m, link is = .ok l ∧
      Machine.History {} l.program [.step {}, .step {}, .step {}] [] m ∧
      m.stack = .ofList [5, 3, 0] ∧
      (m.step {} l.program {}).result =
        .error ⟨.divideByZero, some ⟨.plain (.calculate .divide), 3⟩⟩ ∧
      (m.step {} l.program {}).machine =
        { m with stack := .ofList [5], state := .faulted, steps := 4 } := by
  intro is
  let l : Linking := ⟨⟨#[⟨0, .number .push 5, some 1, none⟩, ⟨1, .number .push 3, some 2, none⟩,
    ⟨2, .number .push 0, some 3, none⟩, ⟨3, .plain (.calculate .divide), none, none⟩]⟩, 0, 4⟩
  have linked : link is = .ok l := rfl
  let m : Machine := ⟨.ofList [5, 3, 0], [], {}, 3, .running, 3⟩
  have history : Machine.History {} l.program [.step {}, .step {}, .step {}] [] m :=
    .call (.step {}) (.call (.step {}) (.call (.step {}) .new))
  have failed : (m.step {} l.program {}).result =
      .error ⟨.divideByZero, some ⟨.plain (.calculate .divide), 3⟩⟩ := rfl
  obtain ⟨node, ⟨-, stands⟩, -, damaged, -⟩ := damage_of_history linked history failed
  cases stands
  obtain ⟨count, entry, -, left⟩ := damaged Cause.noConfusion
  cases entry
  exact ⟨l, m, linked, history, rfl, failed, left⟩

end Whitespace
