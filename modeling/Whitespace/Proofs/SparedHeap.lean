import Whitespace.Proofs.Dialogue

/-!
# Failing leaves the heap as it is

Only a store and a read write to the heap, and this is the last thing they do.  So an instruction
that fails has not touched it (`Node.execute_spares`).  That is said of the table itself: not even a
cell that holds zero has been added.

The proof goes over the actions that instructions are made of.  What comes before the last action
must keep the heap in any case, and the last must keep it when it fails.

## Main definitions

* `Action.KeepsHeap x` — the action leaves the heap as it is.
* `Action.Spares x` — the action leaves the heap as it is when it fails.
-/

namespace Whitespace

namespace Action

variable {α β : Type}

/-- The action leaves the heap as it is. -/
def KeepsHeap (x : Action α) : Prop :=
  ∀ w, (leftOf (x w)).heap = w.heap

/-- The action leaves the heap as it is when it fails. -/
def Spares (x : Action α) : Prop :=
  ∀ w cause w', x w = .error cause w' → w'.heap = w.heap

theorem KeepsHeap.spares {x : Action α} (keeps : KeepsHeap x) : Spares x := by
  intro w cause w' failed
  have same := keeps w
  rwa [failed] at same

theorem KeepsHeap.bind {x : Action α} {more : α → Action β} (first : KeepsHeap x)
    (second : ∀ a, KeepsHeap (more a)) : KeepsHeap (x >>= more) := by
  intro w
  have same := first w
  rw [bind_apply]
  cases left : x w with
  | ok a w' =>
    rw [left] at same
    exact (second a w').trans same
  | error cause w' =>
    rw [left] at same
    exact same

/-- What is done before an action spares the heap must keep it. -/
theorem KeepsHeap.bind_spares {x : Action α} {more : α → Action β} (first : KeepsHeap x)
    (second : ∀ a, Spares (more a)) : Spares (x >>= more) := by
  intro w cause w' failed
  have same := first w
  rw [bind_apply] at failed
  cases left : x w with
  | ok a w₁ =>
    rw [left] at same failed
    exact (second a w₁ cause w' failed).trans same
  | error other w₁ =>
    rw [left] at same failed
    cases failed
    exact same

theorem keepsHeap_pure (a : α) : KeepsHeap (pure a : Action α) :=
  fun _ => rfl

theorem keepsHeap_throw (cause : Cause) : KeepsHeap (throw cause : Action α) :=
  fun _ => rfl

theorem keepsHeap_push (word : Int64) : KeepsHeap (push word) :=
  fun _ => rfl

theorem keepsHeap_pop : KeepsHeap pop := by
  intro w
  rw [pop]
  cases w.stack.peek? <;> rfl

theorem keepsHeap_peekAt (depth : Nat) : KeepsHeap (peekAt depth) := by
  intro w
  rw [peekAt]
  cases w.stack.get? depth <;> rfl

theorem keepsHeap_drop (count : Nat) : KeepsHeap (drop count) := by
  intro w
  rw [drop]
  split <;> rfl

theorem keepsHeap_natural (operand : Int64) : KeepsHeap (natural operand) := by
  intro w
  rw [natural_apply]
  split <;> rfl

theorem keepsHeap_pushCall (continuation : Option Nat) : KeepsHeap (pushCall continuation) :=
  fun _ => rfl

theorem keepsHeap_popCall : KeepsHeap popCall := by
  intro w
  rw [popCall]
  cases w.calls <;> rfl

theorem keepsHeap_load (address : Int64) : KeepsHeap (load address) :=
  fun _ => rfl

theorem keepsHeap_requireInput : KeepsHeap requireInput := by
  intro w
  rw [requireInput]
  cases w.streams.input <;> rfl

theorem keepsHeap_requireOutput : KeepsHeap requireOutput := by
  intro w
  rw [requireOutput]
  cases w.streams.output <;> rfl

theorem keepsHeap_read (reading : Reading α) : KeepsHeap (read reading) := by
  rintro ⟨stack, calls, heap, ⟨_ | input, output⟩⟩
  · rfl
  · simp only [read]
    cases reading input <;> rfl

theorem keepsHeap_write (bytes : ByteArray) : KeepsHeap (write bytes) := by
  rintro ⟨stack, calls, heap, ⟨input, _ | sink⟩⟩
  · rfl
  · simp only [write]
    rcases sink.write bytes with ⟨_ | message, sink⟩ <;> rfl

theorem keepsHeap_flush : KeepsHeap flush := by
  rintro ⟨stack, calls, heap, streams⟩
  rw [flush_apply]
  rcases streams.flush with ⟨_ | message, streams⟩ <;> rfl

/-- Writing to the heap does not fail. -/
theorem spares_store (address word : Int64) (a : α) :
    Spares (do store address word; return a) := by
  intro w cause w' failed
  cases failed

end Action

open Whitespace.Action

theorem NumberOp.execute_spares (op : NumberOp) (operand : Int64) :
    Spares (op.execute operand) := by
  cases op with
  | push => exact ((keepsHeap_push _).bind fun _ => keepsHeap_pure _).spares
  | copy =>
    apply (keepsHeap_natural _).bind_spares
    intro depth
    apply (keepsHeap_peekAt depth).bind_spares
    intro word
    exact ((keepsHeap_push word).bind fun _ => keepsHeap_pure _).spares
  | slide =>
    apply (keepsHeap_natural _).bind_spares
    intro count
    apply keepsHeap_pop.bind_spares
    intro top
    apply (keepsHeap_drop count).bind_spares
    intro _
    exact ((keepsHeap_push top).bind fun _ => keepsHeap_pure _).spares

theorem LabelOp.branch_keepsHeap (node : Node) : KeepsHeap (branch node) := by
  rw [branch]
  split
  · exact keepsHeap_pure _
  · exact keepsHeap_throw _

theorem LabelOp.execute_spares (op : LabelOp) (node : Node) : Spares (op.execute node) := by
  cases op with
  | define => exact (keepsHeap_throw _).spares
  | call =>
    apply (branch_keepsHeap node).bind_spares
    intro move
    exact ((keepsHeap_pushCall _).bind fun _ => keepsHeap_pure _).spares
  | jump => exact (branch_keepsHeap node).spares
  | jumpIf condition =>
    apply keepsHeap_pop.bind_spares
    intro word
    split
    · exact (branch_keepsHeap node).spares
    · exact (keepsHeap_pure _).spares

theorem PlainOp.execute_spares (op : PlainOp) : Spares op.execute := by
  cases op with
  | duplicate =>
    apply (keepsHeap_peekAt 0).bind_spares
    intro word
    exact ((keepsHeap_push word).bind fun _ => keepsHeap_pure _).spares
  | swap =>
    apply keepsHeap_pop.bind_spares
    intro top
    apply keepsHeap_pop.bind_spares
    intro below
    apply (keepsHeap_push top).bind_spares
    intro _
    exact ((keepsHeap_push below).bind fun _ => keepsHeap_pure _).spares
  | discard => exact (keepsHeap_pop.bind fun _ => keepsHeap_pure _).spares
  | calculate calculation =>
    apply keepsHeap_pop.bind_spares
    intro right
    apply keepsHeap_pop.bind_spares
    intro left
    split
    · exact ((keepsHeap_push _).bind fun _ => keepsHeap_pure _).spares
    · exact ((keepsHeap_throw _).bind fun _ => keepsHeap_pure _).spares
  | store =>
    apply keepsHeap_pop.bind_spares
    intro word
    apply keepsHeap_pop.bind_spares
    intro address
    exact spares_store address word _
  | load =>
    apply keepsHeap_pop.bind_spares
    intro address
    apply (keepsHeap_load address).bind_spares
    intro word
    exact ((keepsHeap_push word).bind fun _ => keepsHeap_pure _).spares
  | ret =>
    apply keepsHeap_popCall.bind_spares
    intro continuation
    split
    · exact (keepsHeap_pure _).spares
    · exact (keepsHeap_throw _).spares
  | stop => exact (keepsHeap_flush.bind fun _ => keepsHeap_pure _).spares
  | print format =>
    apply keepsHeap_requireOutput.bind_spares
    intro _
    apply keepsHeap_pop.bind_spares
    intro word
    split
    · exact ((keepsHeap_write _).bind fun _ => keepsHeap_pure _).spares
    · exact ((keepsHeap_throw _).bind fun _ => keepsHeap_pure _).spares
  | read format =>
    apply keepsHeap_requireInput.bind_spares
    intro _
    apply keepsHeap_pop.bind_spares
    intro address
    apply keepsHeap_flush.bind_spares
    intro _
    apply (keepsHeap_read _).bind_spares
    intro word
    exact spares_store address word _

/-- **A node that fails leaves the heap as it is**, and not only its words. -/
theorem Node.execute_spares (node : Node) : Spares node.execute := by
  rw [Node.execute_eq]
  split
  · exact NumberOp.execute_spares _ _
  · exact LabelOp.execute_spares _ node
  · exact PlainOp.execute_spares _

end Whitespace
