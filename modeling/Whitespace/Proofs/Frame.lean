import Whitespace.Linking
import Whitespace.Proofs.Walker

/-!
# What lies below the stacks

Instructions work at the top of the operand stack and on the innermost calls.  Whatever lies below
is neither looked at nor changed, as long as no instruction finds a stack too short: with more words
and more calls below, a machine returns the same results, reads and writes the same, and keeps what
lies below where it is (`frame_of_steps`).

The property is one of actions, `Action.Framed`.  It holds of the actions that instructions are made
of, and passes from actions to their sequence (`Action.framed_bind`), so that an instruction has it
by the way it is written.

## Main definitions

* `Ground` — the words and the calls that are put below those of a machine.
* `Machine.above m ground` — a machine with that ground below its stacks.
* `Machine.results config program n m streams` — what the next `n` steps return.
-/

namespace Whitespace

/-- A stack was too short for an instruction. -/
def Cause.Exhausted (cause : Cause) : Prop :=
  cause = .stackUnderflow ∨ cause = .returnWithoutCall

/-- What lies below the stacks of a machine. -/
structure Ground where
  /-- The words, the lowest first. -/
  words : List Int64
  /-- The continuations, the innermost first. -/
  calls : List (Option Nat)

namespace Stack

/-- The stack with some words below its own. -/
def above (s : Stack) (words : List Int64) : Stack :=
  .ofList (words ++ s.toList)

@[ext] theorem ext_toList {s t : Stack} (h : s.toList = t.toList) : s = t := by
  rcases s with ⟨items⟩
  rcases t with ⟨items'⟩
  obtain rfl : items = items' := Array.toList_inj.mp h
  rfl

variable (s : Stack) (words : List Int64)

@[simp] theorem toList_above : (s.above words).toList = words ++ s.toList := by
  simp [above]

@[simp] theorem size_above : (s.above words).size = words.length + s.size := by
  rw [← length_toList, toList_above, List.length_append, length_toList]

@[simp] theorem push_above (word : Int64) :
    (s.above words).push word = (s.push word).above words := by
  ext1
  simp

/-- A word that the stack has is found at its depth. -/
theorem get?_above {depth : Nat} {word : Int64} (h : s.get? depth = some word) :
    (s.above words).get? depth = some word := by
  rw [get?_eq] at h ⊢
  obtain ⟨bound, -⟩ := List.getElem?_eq_some_iff.mp h
  rw [toList_above, List.reverse_append, List.getElem?_append_left bound]
  exact h

/-- Words that the stack has are dropped from it. -/
theorem drop_above {count : Nat} (h : count ≤ s.size) :
    (s.above words).drop count = (s.drop count).above words := by
  ext1
  have taken : words.length + s.size - count = words.length + (s.size - count) := by omega
  simp [taken, List.take_length_add_append]

end Stack

/-- A workspace with some ground below its stacks. -/
def Workspace.above (w : Workspace) (ground : Ground) : Workspace :=
  { w with stack := w.stack.above ground.words, calls := w.calls ++ ground.calls }

/-- What an action has come to, with some ground below the stacks. -/
def resultAbove {α : Type} (ground : Ground) :
    EStateM.Result Cause Workspace α → EStateM.Result Cause Workspace α
  | .ok a w => .ok a (w.above ground)
  | .error cause w => .error cause (w.above ground)

namespace Action

variable {α β : Type}

/-- An action comes to the same with more below, unless it finds a stack too short. -/
def Framed (x : Action α) : Prop :=
  ∀ ground w, (∀ cause w', x w = .error cause w' → ¬cause.Exhausted) →
    x (w.above ground) = resultAbove ground (x w)

/-- **One action after another** leaves alone what both leave alone. -/
theorem framed_bind {x : Action α} {more : α → Action β} (first : Framed x)
    (second : ∀ a, Framed (more a)) : Framed (x >>= more) := by
  intro ground w enough
  rw [bind_apply] at enough ⊢
  rw [bind_apply]
  cases ended : x w with
  | ok a w' =>
    rw [ended] at enough
    rw [first ground w (by simp [ended]), ended]
    exact second a ground w' enough
  | error cause w' =>
    rw [ended] at enough
    have lasting : ∀ cause' w'', x w = .error cause' w'' → ¬cause'.Exhausted := by
      intro cause' w'' failed
      rw [ended] at failed
      cases failed
      exact enough cause w' rfl
    rw [first ground w lasting, ended]
    rfl

theorem framed_pure (a : α) : Framed (pure a : Action α) :=
  fun _ _ _ => rfl

theorem framed_throw (cause : Cause) : Framed (throw cause : Action α) :=
  fun _ _ _ => rfl

/-! ### The stack and the calls -/

theorem framed_push (word : Int64) : Framed (push word) := by
  intro ground w _
  simp [push, resultAbove, Workspace.above]

theorem framed_pop : Framed pop := by
  intro ground w enough
  rcases w with ⟨stack, calls, heap, streams⟩
  rcases stack.eq_empty_or_push with rfl | ⟨stack, top, rfl⟩
  · exact absurd (.inl rfl) (enough _ _ (pop_empty calls heap streams))
  · rw [pop_push, Workspace.above, ← Stack.push_above]
    exact pop_push _ _ _ _ _

theorem framed_peekAt (depth : Nat) : Framed (peekAt depth) := by
  intro ground w enough
  rw [peekAt] at enough
  rcases found : w.stack.get? depth with _ | word
  · rw [found] at enough
    exact absurd (.inl rfl) (enough _ _ rfl)
  · have found' : (w.above ground).stack.get? depth = some word :=
      w.stack.get?_above ground.words found
    rw [peekAt, found', peekAt, found]
    rfl

theorem framed_drop (count : Nat) : Framed (drop count) := by
  intro ground w enough
  rw [drop] at enough
  by_cases short : w.stack.size < count
  · rw [if_pos short] at enough
    exact absurd (.inl rfl) (enough _ _ rfl)
  · have long : ¬(w.above ground).stack.size < count := by
      rw [Workspace.above, Stack.size_above]
      omega
    rw [drop, if_neg long, drop, if_neg short]
    simp only [resultAbove, Workspace.above, Stack.drop_above _ _ (Nat.le_of_not_lt short)]

theorem framed_natural (operand : Int64) : Framed (natural operand) := by
  rw [natural]
  split
  · exact framed_throw _
  · exact framed_pure _

theorem framed_pushCall (continuation : Option Nat) : Framed (pushCall continuation) :=
  fun _ _ _ => rfl

theorem framed_popCall : Framed popCall := by
  intro ground w enough
  rcases w with ⟨stack, _ | ⟨continuation, calls⟩, heap, streams⟩
  · exact absurd (.inr rfl) (enough _ _ rfl)
  · rfl

/-! ### The heap and the streams -/

theorem framed_load (address : Int64) : Framed (load address) :=
  fun _ _ _ => rfl

theorem framed_store (address word : Int64) : Framed (store address word) :=
  fun _ _ _ => rfl

theorem framed_requireInput : Framed requireInput := by
  rintro ground ⟨stack, calls, heap, ⟨_ | input, output⟩⟩ _ <;> rfl

theorem framed_requireOutput : Framed requireOutput := by
  rintro ground ⟨stack, calls, heap, ⟨input, _ | sink⟩⟩ _ <;> rfl

theorem framed_read (reading : Reading α) : Framed (read reading) := by
  rintro ground ⟨stack, calls, heap, ⟨_ | input, output⟩⟩ _
  · rfl
  · simp only [read, Workspace.above]
    cases reading input <;> rfl

theorem framed_write (bytes : ByteArray) : Framed (write bytes) := by
  rintro ground ⟨stack, calls, heap, ⟨input, _ | sink⟩⟩ _
  · rfl
  · simp only [write, Workspace.above]
    rcases sink.write bytes with ⟨_ | message, sink'⟩ <;> rfl

theorem framed_flush : Framed flush := by
  rintro ground ⟨stack, calls, heap, ⟨input, _ | sink⟩⟩ _
  · rfl
  · simp only [flush, Workspace.above]
    rcases sink.flush with ⟨_ | message, sink'⟩ <;> rfl

end Action

/-! ## Instructions -/

open Whitespace.Action

theorem NumberOp.execute_framed (op : NumberOp) (operand : Int64) :
    Framed (op.execute operand) := by
  cases op with
  | push => exact framed_bind (framed_push _) fun _ => framed_pure _
  | copy =>
    refine framed_bind (framed_natural _) fun depth => ?_
    refine framed_bind (framed_peekAt depth) fun word => ?_
    exact framed_bind (framed_push word) fun _ => framed_pure _
  | slide =>
    refine framed_bind (framed_natural _) fun count => ?_
    refine framed_bind framed_pop fun top => ?_
    refine framed_bind (framed_drop count) fun _ => ?_
    exact framed_bind (framed_push top) fun _ => framed_pure _

theorem LabelOp.branch_framed (node : Node) : Framed (branch node) := by
  rw [branch]
  split
  · exact framed_pure _
  · exact framed_throw _

theorem LabelOp.execute_framed (op : LabelOp) (node : Node) : Framed (op.execute node) := by
  cases op with
  | define => exact framed_throw _
  | call =>
    refine framed_bind (branch_framed node) fun move => ?_
    exact framed_bind (framed_pushCall _) fun _ => framed_pure _
  | jump => exact branch_framed node
  | jumpIf condition =>
    refine framed_bind framed_pop fun word => ?_
    split
    · exact branch_framed node
    · exact framed_pure _

theorem PlainOp.execute_framed (op : PlainOp) : Framed op.execute := by
  cases op with
  | duplicate =>
    refine framed_bind (framed_peekAt 0) fun word => ?_
    exact framed_bind (framed_push word) fun _ => framed_pure _
  | swap =>
    refine framed_bind framed_pop fun top => ?_
    refine framed_bind framed_pop fun below => ?_
    refine framed_bind (framed_push top) fun _ => ?_
    exact framed_bind (framed_push below) fun _ => framed_pure _
  | discard => exact framed_bind framed_pop fun _ => framed_pure _
  | calculate calculation =>
    refine framed_bind framed_pop fun right => ?_
    refine framed_bind framed_pop fun left => ?_
    split
    · exact framed_bind (framed_push _) fun _ => framed_pure _
    · exact framed_bind (framed_throw _) fun _ => framed_pure _
  | store =>
    refine framed_bind framed_pop fun word => ?_
    refine framed_bind framed_pop fun address => ?_
    exact framed_bind (framed_store address word) fun _ => framed_pure _
  | load =>
    refine framed_bind framed_pop fun address => ?_
    refine framed_bind (framed_load address) fun word => ?_
    exact framed_bind (framed_push word) fun _ => framed_pure _
  | ret =>
    refine framed_bind framed_popCall fun continuation => ?_
    split
    · exact framed_pure _
    · exact framed_throw _
  | stop => exact framed_bind framed_flush fun _ => framed_pure _
  | print format =>
    refine framed_bind framed_requireOutput fun _ => ?_
    refine framed_bind framed_pop fun word => ?_
    split
    · exact framed_bind (framed_write _) fun _ => framed_pure _
    · exact framed_bind (framed_throw _) fun _ => framed_pure _
  | read format =>
    refine framed_bind framed_requireInput fun _ => ?_
    refine framed_bind framed_pop fun address => ?_
    refine framed_bind framed_flush fun _ => ?_
    refine framed_bind (framed_read _) fun word => ?_
    exact framed_bind (framed_store address word) fun _ => framed_pure _

/-- **Executing a node** leaves alone what lies below. -/
theorem Node.execute_framed (node : Node) : Framed node.execute := by
  rw [Node.execute_eq]
  split
  · exact NumberOp.execute_framed _ _
  · exact LabelOp.execute_framed _ node
  · exact PlainOp.execute_framed _

/-! ## Machines -/

namespace Machine

/-- A machine with some ground below its stacks. -/
def above (m : Machine) (ground : Ground) : Machine :=
  { m with stack := m.stack.above ground.words, calls := m.calls ++ ground.calls }

/-- What the next steps return, one after another. -/
def results (config : Config) (program : Program) :
    Nat → Machine → Streams → List (Except Fault State)
  | 0, _, _ => []
  | n + 1, m, streams =>
    let outcome := m.step config program streams
    outcome.result :: results config program n outcome.machine outcome.streams

variable {config : Config} {program : Program} {m : Machine} {streams : Streams}

/-- An outcome is another one with some ground below the stacks. -/
structure Outcome.IsAbove (ground : Ground) (o framed : Outcome) : Prop where
  result : framed.result = o.result
  machine : framed.machine = o.machine.above ground
  streams : framed.streams = o.streams

/-- Executing a node that does not find a stack too short. -/
theorem executeNode_above (ground : Ground) {node : Node}
    (enough : ∀ f, (m.executeNode config streams node).result = .error f → ¬f.cause.Exhausted) :
    Outcome.IsAbove ground (m.executeNode config streams node)
      ((m.above ground).executeNode config streams node) := by
  rcases m with ⟨stack, calls, heap, current, state, steps⟩
  have framed := node.execute_framed ground ⟨stack, calls, heap, streams⟩
  simp only [executeNode, above, Workspace.above] at enough framed ⊢
  rcases ended : node.execute ⟨stack, calls, heap, streams⟩ with ⟨move, w⟩ | ⟨cause, w⟩
  · rw [framed (by simp [ended]), ended]
    rcases move with _ | slot | _
    · rcases node.next with _ | slot <;> exact ⟨rfl, rfl, rfl⟩
    · exact ⟨rfl, rfl, rfl⟩
    · exact ⟨rfl, rfl, rfl⟩
  · rw [ended] at enough
    have lasting : ∀ cause' w', node.execute ⟨stack, calls, heap, streams⟩ = .error cause' w' →
        ¬cause'.Exhausted := by
      intro cause' w' failed
      rw [ended] at failed
      cases failed
      exact enough _ rfl
    rw [framed lasting, ended]
    exact ⟨rfl, rfl, rfl⟩

/-- **A step** that does not find a stack too short leaves alone what lies below. -/
theorem step_above (ground : Ground)
    (enough : ∀ f, (m.step config program streams).result = .error f → ¬f.cause.Exhausted) :
    Outcome.IsAbove ground (m.step config program streams)
      ((m.above ground).step config program streams) := by
  by_cases running : m.state = .running
  · have running' : (m.above ground).state = .running := running
    have same : (m.above ground).current = m.current := rfl
    rcases stands : program.node? m.current with _ | node
    · simp only [step, running, running', same, stands]
      exact ⟨rfl, rfl, rfl⟩
    · simp only [step, running, stands] at enough
      simp only [step, running, running', same, stands]
      exact executeNode_above ground enough
  · rw [step_of_not_running config program streams running,
      step_of_not_running (m := m.above ground) config program streams running]
    exact ⟨rfl, rfl, rfl⟩

/-- **What lies below the stacks makes no difference and is left alone**, as long as no step finds a
stack too short.  With any words below its operand stack and any continuations below its calls, a
machine returns the same results, comes to the same streams, and ends as the same machine with the
same words and continuations below. -/
theorem frame_of_steps (ground : Ground) (n : Nat)
    (enough : ∀ f, .error f ∈ results config program n m streams →
      f.cause ≠ .stackUnderflow ∧ f.cause ≠ .returnWithoutCall) :
    results config program n (m.above ground) streams = results config program n m streams ∧
      (after config program n (m.above ground) streams).1 =
        (after config program n m streams).1.above ground ∧
      (after config program n (m.above ground) streams).2 =
        (after config program n m streams).2 := by
  induction n generalizing m streams with
  | zero => exact ⟨rfl, rfl, rfl⟩
  | succ n ih =>
    have first : ∀ f, (m.step config program streams).result = .error f → ¬f.cause.Exhausted := by
      intro f failed
      obtain ⟨words, calls⟩ := enough f (by rw [results, failed]; exact List.mem_cons_self)
      rintro (short | short)
      · exact words short
      · exact calls short
    have step := step_above ground first
    have rest := ih fun f later => enough f (List.mem_cons_of_mem _ later)
    simp only [results, after, step.result, step.machine, step.streams]
    exact ⟨congrArg _ rest.1, rest.2⟩

/-- A division by zero inside a call: two words are gone when it faults, and none of those below. -/
theorem frame_of_steps_division :
    let is := [.label .call ⟨[]⟩, .label .define ⟨[]⟩, .number .push 5, .number .push 0,
      .plain (.calculate .divide)]
    ∃ l, link is = .ok l ∧
      let framed := (start l.program).above ⟨[7, 8], [none, some 2]⟩
      results {} l.program 4 framed {} = [.ok .running, .ok .running, .ok .running,
        .error ⟨.divideByZero, some ⟨.plain (.calculate .divide), 4⟩⟩] ∧
      (after {} l.program 4 framed {}).1.stack.toList = [7, 8] ∧
      (after {} l.program 4 framed {}).1.calls = [some 1, none, some 2] := by
  intro is
  let l : Linking := ⟨⟨#[⟨0, .label .call ⟨[]⟩, some 1, some 1⟩,
    ⟨2, .number .push 5, some 2, none⟩, ⟨3, .number .push 0, some 3, none⟩,
    ⟨4, .plain (.calculate .divide), none, none⟩]⟩, 1, 5⟩
  have linked : link is = .ok l := rfl
  have returned : results {} l.program 4 (start l.program) {} = [.ok .running, .ok .running,
      .ok .running, .error ⟨.divideByZero, some ⟨.plain (.calculate .divide), 4⟩⟩] := rfl
  have enough : ∀ f, .error f ∈ results {} l.program 4 (start l.program) {} →
      f.cause ≠ .stackUnderflow ∧ f.cause ≠ .returnWithoutCall := by
    intro f member
    rw [returned] at member
    simp at member
    subst member
    exact ⟨by decide, by decide⟩
  obtain ⟨same, machine, -⟩ := frame_of_steps ⟨[7, 8], [none, some 2]⟩ 4 enough
  refine ⟨l, linked, same.trans returned, ?_, ?_⟩
  · rw [machine]
    rfl
  · rw [machine]
    rfl

end Machine

end Whitespace
