import Mathlib.Logic.Function.Basic
import Whitespace.Machine

/-!
# Effects on plain data

What an instruction does, written without monads on plain data: the stack is a list with its top
first and the heap a function.  `Instruction.effect` is the reference that the running definition is
compared with: `execute_effect` says that executing a node has exactly this effect, also when it
fails half-way.  Calculations are exact there, and a jump looks at the number that a word stands
for; that 64-bit words do the same is part of the comparison.

Where a node leads is a number that an effect passes on without looking at it.  The comparison
therefore allows slots to be renamed on the way, so that one statement serves both for slots of a
program and for places of a source.
-/

namespace Whitespace

/-- What instructions work on, as plain data. -/
structure World where
  /-- The words, the top first. -/
  stack : List Int64 := []
  calls : List (Option Nat) := []
  heap : Int64 → Int64 := fun _ => 0
  streams : Streams := {}

/-- How an effect ends, and what it leaves. -/
abbrev Turn := Except Cause Move × World

namespace World

/-- Goes on to the next instruction with the given stack. -/
def proceed (w : World) (stack : List Int64) : Turn :=
  (.ok .next, { w with stack })

/-- Fails and leaves the given stack. -/
def refuse (w : World) (stack : List Int64) (cause : Cause) : Turn :=
  (.error cause, { w with stack })

/-- Goes where a call or a jump leads. -/
def leave (w : World) (target : Option Nat) : Turn :=
  match target with
  | some target => (.ok (.branch target), w)
  | none => (.error (.inconsistent .unresolvedBranch), w)

@[simp] theorem proceed_fst (w : World) (stack : List Int64) :
    (w.proceed stack).1 = .ok .next := rfl

@[simp] theorem refuse_fst (w : World) (stack : List Int64) (cause : Cause) :
    (w.refuse stack cause).1 = .error cause := rfl

end World

/-- Flushes the output, if there is one: the failure, if it fails, and the streams behind it. -/
def Streams.flush (s : Streams) : Option String × Streams :=
  match s.output with
  | none => (none, s)
  | some sink => (sink.flush.1, { s with output := some sink.flush.2 })

/-- A flush leaves the input alone. -/
theorem Streams.flush_input (s : Streams) : s.flush.2.input = s.input := by
  rcases s with ⟨input, _ | sink⟩ <;> rfl

/-- The exact result of a calculation. -/
def Calculation.exact : Calculation → Int → Int → Int
  | add, left, right => left + right
  | subtract, left, right => left - right
  | multiply, left, right => left * right
  | divide, left, right => left.tdiv right
  | modulo, left, right => left.tmod right

/-- The calculations that divide. -/
def Calculation.divides : Calculation → Bool
  | divide | modulo => true
  | add | subtract | multiply => false

namespace NumberOp

/-- The effect of an instruction with a number. -/
def effect (op : NumberOp) (operand : Int64) (w : World) : Turn :=
  match op with
  | push => w.proceed (operand :: w.stack)
  | copy =>
    if operand < 0 then w.refuse w.stack (.invalidOperand operand)
    else
      match w.stack[operand.toInt.toNat]? with
      | some word => w.proceed (word :: w.stack)
      | none => w.refuse w.stack .stackUnderflow
  | slide =>
    if operand < 0 then w.refuse w.stack (.invalidOperand operand)
    else
      match w.stack with
      | [] => w.refuse [] .stackUnderflow
      | top :: below =>
        if below.length < operand.toInt.toNat then w.refuse below .stackUnderflow
        else w.proceed (top :: below.drop operand.toInt.toNat)

end NumberOp

namespace LabelOp

/-- The effect of an instruction with a label: `follow` is what stands behind it and `target` where
its label leads. -/
def effect (op : LabelOp) (follow target : Option Nat) (w : World) : Turn :=
  match op with
  | define => w.refuse w.stack (.inconsistent .labelReached)
  | call =>
    match target with
    | some target => (.ok (.branch target), { w with calls := follow :: w.calls })
    | none => w.leave none
  | jump => w.leave target
  | jumpIf condition =>
    match w.stack with
    | [] => w.refuse [] .stackUnderflow
    | word :: below =>
      if condition = .zero ∧ word.toInt = 0 ∨ condition = .negative ∧ word.toInt < 0 then
        ({ w with stack := below } : World).leave target
      else w.proceed below

end LabelOp

namespace PlainOp

/-- The effect of an instruction without operand. -/
def effect (op : PlainOp) (w : World) : Turn :=
  match op, w.stack with
  | duplicate, top :: below => w.proceed (top :: top :: below)
  | duplicate, [] => w.refuse [] .stackUnderflow
  | swap, top :: other :: below => w.proceed (other :: top :: below)
  | swap, _ => w.refuse [] .stackUnderflow
  | discard, _ :: below => w.proceed below
  | discard, [] => w.refuse [] .stackUnderflow
  | calculate calculation, right :: left :: below =>
    if calculation.divides ∧ right = 0 then w.refuse below .divideByZero
    else w.proceed (.ofInt (calculation.exact left.toInt right.toInt) :: below)
  | calculate _, _ => w.refuse [] .stackUnderflow
  | store, word :: address :: below =>
    ({ w with heap := Function.update w.heap address word } : World).proceed below
  | store, _ => w.refuse [] .stackUnderflow
  | load, address :: below => w.proceed (w.heap address :: below)
  | load, [] => w.refuse [] .stackUnderflow
  | ret, _ =>
    match w.calls with
    | [] => (.error .returnWithoutCall, w)
    | some target :: calls => (.ok (.branch target), { w with calls })
    | none :: calls => (.error .prematureEnd, { w with calls })
  | stop, _ =>
    match w.streams.flush with
    | (none, streams) => (.ok .halt, { w with streams })
    | (some message, streams) => (.error (.io message), { w with streams })
  | print format, stack =>
    match w.streams.output, stack with
    | none, _ => w.refuse stack (.noStream .output)
    | some _, [] => w.refuse [] .stackUnderflow
    | some sink, word :: below =>
      match format.print word with
      | .error cause => w.refuse below cause
      | .ok text =>
        let (failure, sink) := sink.write (Utf8.encode text)
        let w := { w with streams := { w.streams with output := some sink } }
        match failure with
        | none => w.proceed below
        | some message => w.refuse below (.io message)
  | read format, stack =>
    match w.streams.input, stack with
    | none, _ => w.refuse stack (.noStream .input)
    | some _, [] => w.refuse [] .stackUnderflow
    | some input, address :: below =>
      match w.streams.flush with
      | (some message, streams) =>
        ({ w with streams } : World).refuse below (.io message)
      | (none, streams) =>
        match format.reading input with
        | .error cause input =>
          ({ w with streams := { streams with input := some input } } : World).refuse below cause
        | .ok word input =>
          ({ w with
              heap := Function.update w.heap address word
              streams := { streams with input := some input } } : World).proceed below

end PlainOp

/-- The effect of an instruction: `follow` is what stands behind it and `target` where its label
leads, if it is a call or a jump. -/
def Instruction.effect (i : Instruction) (follow target : Option Nat) (w : World) : Turn :=
  match i with
  | number op operand => op.effect operand w
  | label op _ => op.effect follow target w
  | plain op => op.effect w

/-! ## Workspaces as plain data -/

/-- The plain data of a workspace, its slots renamed. -/
def Workspace.world (rename : Nat → Nat) (w : Workspace) : World where
  stack := w.stack.toList.reverse
  calls := w.calls.map (Option.map rename)
  heap := w.heap.get
  streams := w.streams

/-- A move with its slot renamed. -/
def Move.rename (rename : Nat → Nat) : Move → Move
  | next => next
  | branch slot => branch (rename slot)
  | halt => halt

/-- What an action has come to, as plain data. -/
def turn (rename : Nat → Nat) : EStateM.Result Cause Workspace Move → Turn
  | .ok move w => (.ok (move.rename rename), w.world rename)
  | .error cause w => (.error cause, w.world rename)

@[simp] theorem Heap.get_set_eq_update (h : Heap) (address word : Int64) :
    (h.set address word).get = Function.update h.get address word := by
  funext other
  rw [Heap.get_set, Function.update_apply]
  simp only [eq_comm]

@[simp] theorem Stack.reverse_toList_push (s : Stack) (word : Int64) :
    (s.push word).toList.reverse = word :: s.toList.reverse := by
  simp

theorem Stack.eq_empty_or_push (s : Stack) : s = {} ∨ ∃ (rest : Stack) (top : Int64),
    s = rest.push top := by
  rcases h : s.pop? with _ | ⟨top, rest⟩
  · left
    rcases s with ⟨items⟩
    simp only [Stack.pop?, Stack.peek?, Option.map_eq_none_iff, Array.back?_eq_none_iff] at h
    rw [h]
  · exact .inr ⟨rest, top, Stack.pop?_eq_some_iff.mp h⟩

namespace Action

variable {α β : Type}

@[simp] theorem bind_apply (x : Action α) (f : α → Action β) (w : Workspace) :
    (x >>= f) w =
      match x w with
      | .ok a w => f a w
      | .error cause w => .error cause w := by
  change EStateM.bind x f w = _
  unfold EStateM.bind
  cases x w <;> rfl

@[simp] theorem map_apply (f : α → β) (x : Action α) (w : Workspace) :
    (f <$> x) w =
      match x w with
      | .ok a w => .ok (f a) w
      | .error cause w => .error cause w := by
  change EStateM.map f x w = _
  unfold EStateM.map
  cases x w <;> rfl

@[simp] theorem pure_apply (a : α) (w : Workspace) : (pure a : Action α) w = .ok a w := rfl

@[simp] theorem throw_apply (cause : Cause) (w : Workspace) :
    (throw cause : Action α) w = .error cause w := rfl

@[simp] theorem pop_empty (calls : List (Option Nat)) (heap : Heap) (streams : Streams) :
    pop ⟨{}, calls, heap, streams⟩ = .error .stackUnderflow ⟨{}, calls, heap, streams⟩ := rfl

@[simp] theorem pop_push (stack : Stack) (word : Int64) (calls : List (Option Nat)) (heap : Heap)
    (streams : Streams) :
    pop ⟨stack.push word, calls, heap, streams⟩ = .ok word ⟨stack, calls, heap, streams⟩ := by
  simp [pop]

/-- A number operand that counts. -/
theorem natural_apply (operand : Int64) (w : Workspace) :
    natural operand w =
      if operand < 0 then .error (.invalidOperand operand) w else .ok operand.toInt.toNat w := by
  rw [natural]
  split <;> rfl

/-- Flushing is an effect on the streams alone. -/
theorem flush_apply (stack : Stack) (calls : List (Option Nat)) (heap : Heap) (streams : Streams) :
    flush ⟨stack, calls, heap, streams⟩ =
      match streams.flush with
      | (none, streams) => .ok () ⟨stack, calls, heap, streams⟩
      | (some message, streams) => .error (.io message) ⟨stack, calls, heap, streams⟩ := by
  rcases streams with ⟨input, _ | sink⟩
  · rfl
  · rcases h : sink.flush with ⟨_ | message, sink'⟩ <;> simp [flush, Streams.flush, h]

end Action

/-- Calculating in words gives the word congruent to the exact result. -/
theorem Calculation.apply_eq (calculation : Calculation) (left right : Int64) :
    calculation.apply left right =
      if calculation.divides ∧ right = 0 then .error .divideByZero
      else .ok (.ofInt (calculation.exact left.toInt right.toInt)) := by
  have word (x : Int) (y : Int64) (h : y.toInt = x.bmod (2 ^ 64)) : y = .ofInt x :=
    ((Int64.ofInt_eq_iff_bmod_eq_toInt x y).mpr h.symm).symm
  cases calculation with
  | add => exact congrArg Except.ok (word _ _ (Int64.toInt_add left right))
  | subtract => exact congrArg Except.ok (word _ _ (Int64.toInt_sub left right))
  | multiply => exact congrArg Except.ok (word _ _ (Int64.toInt_mul left right))
  | divide =>
    have quotient := word _ _ (Int64.toInt_div left right)
    simp only [apply, divides, exact, true_and, quotient]
  | modulo =>
    have small : (left % right).toInt = (left.toInt.tmod right.toInt).bmod (2 ^ 64) := by
      rw [← Int64.toInt_mod]
      exact (Int64.toInt_bmod _).symm
    have remainder := word _ _ small
    simp only [apply, divides, exact, true_and, remainder]

/-- Testing a word is testing the number it stands for. -/
theorem Condition.holds_iff {condition : Condition} {word : Int64} :
    condition.holds word = true ↔
      condition = .zero ∧ word.toInt = 0 ∨ condition = .negative ∧ word.toInt < 0 := by
  cases condition with
  | zero => simp [holds, ← Int64.toInt_inj]
  | negative => simp [holds, Int64.lt_iff_toInt_lt]

/-! ## Executing has the effect -/

variable (rename : Nat → Nat)

theorem NumberOp.execute_effect (op : NumberOp) (operand : Int64) (w : Workspace) :
    turn rename (op.execute operand w) = op.effect operand (w.world rename) := by
  rcases w with ⟨stack, calls, heap, streams⟩
  cases op with
  | push => simp [execute, effect, Action.push, turn, Move.rename, Workspace.world, World.proceed]
  | copy =>
    simp only [execute, effect, Action.bind_apply, Action.natural_apply]
    by_cases negative : operand < 0
    · simp [negative, turn, Workspace.world, World.refuse]
    · simp only [negative, if_false, Action.peekAt, Workspace.world, Stack.get?_eq]
      rcases stack.toList.reverse[operand.toInt.toNat]? with _ | word
      · simp [turn, Workspace.world, World.refuse]
      · simp [Action.push, turn, Move.rename, Workspace.world, World.proceed]
  | slide =>
    simp only [execute, effect, Action.bind_apply, Action.natural_apply]
    by_cases negative : operand < 0
    · simp [negative, turn, Workspace.world, World.refuse]
    · rcases stack.eq_empty_or_push with rfl | ⟨stack, top, rfl⟩
      · simp [negative, turn, Workspace.world, World.refuse, Stack.toList]
      · simp only [negative, if_false, Action.pop_push, Action.drop, Workspace.world,
          Stack.reverse_toList_push, List.length_reverse, Stack.length_toList]
        generalize operand.toInt.toNat = count
        by_cases short : stack.size < count
        · simp [short, turn, Workspace.world, World.refuse]
        · simp [short, Action.push, turn, Move.rename, Workspace.world, World.proceed,
            List.drop_reverse]

/-- Going where a call or a jump leads. -/
theorem LabelOp.branch_effect (node : Node) (w : Workspace) :
    turn rename (branch node w) = (w.world rename).leave (node.branch.map rename) := by
  rw [branch]
  rcases node.branch with _ | slot <;> rfl

theorem LabelOp.execute_effect (op : LabelOp) (node : Node) (w : Workspace) :
    turn rename (op.execute node w) =
      op.effect (node.next.map rename) (node.branch.map rename) (w.world rename) := by
  rcases w with ⟨stack, calls, heap, streams⟩
  cases op with
  | define => rfl
  | call =>
    simp only [execute, effect, Action.bind_apply, branch]
    rcases node.branch with _ | slot <;> rfl
  | jump => exact branch_effect rename node _
  | jumpIf condition =>
    simp only [execute, effect, Action.bind_apply]
    rcases stack.eq_empty_or_push with rfl | ⟨stack, top, rfl⟩
    · rfl
    · simp only [Action.pop_push, Workspace.world, Stack.reverse_toList_push]
      by_cases taken : condition.holds top = true
      · rw [if_pos taken, if_pos (Condition.holds_iff.mp taken)]
        exact branch_effect rename node _
      · rw [if_neg taken, if_neg (mt Condition.holds_iff.mpr taken)]
        simp [turn, Move.rename, Workspace.world, World.proceed]

theorem PlainOp.execute_effect (op : PlainOp) (w : Workspace) :
    turn rename (op.execute w) = op.effect (w.world rename) := by
  rcases w with ⟨stack, calls, heap, streams⟩
  cases op with
  | duplicate =>
    rcases stack.eq_empty_or_push with rfl | ⟨stack, top, rfl⟩
    · rfl
    · simp [execute, effect, Action.peekAt, Stack.get?_eq, Action.push, turn, Move.rename,
        Workspace.world, World.proceed]
  | swap =>
    rcases stack.eq_empty_or_push with rfl | ⟨stack, top, rfl⟩
    · rfl
    · rcases stack.eq_empty_or_push with rfl | ⟨stack, below, rfl⟩
      · rfl
      · simp [execute, effect, Action.push, turn, Move.rename, Workspace.world, World.proceed]
  | discard =>
    rcases stack.eq_empty_or_push with rfl | ⟨stack, top, rfl⟩
    · rfl
    · simp [execute, effect, turn, Move.rename, Workspace.world, World.proceed]
  | calculate calculation =>
    rcases stack.eq_empty_or_push with rfl | ⟨stack, right, rfl⟩
    · rfl
    · rcases stack.eq_empty_or_push with rfl | ⟨stack, left, rfl⟩
      · rfl
      · simp only [execute, effect, Action.bind_apply, Action.pop_push, Calculation.apply_eq,
          Workspace.world, Stack.reverse_toList_push]
        by_cases zero : calculation.divides = true ∧ right = 0
        · simp [zero, turn, Workspace.world, World.refuse]
        · simp [zero, Action.push, turn, Move.rename, Workspace.world, World.proceed]
  | store =>
    rcases stack.eq_empty_or_push with rfl | ⟨stack, word, rfl⟩
    · rfl
    · rcases stack.eq_empty_or_push with rfl | ⟨stack, address, rfl⟩
      · rfl
      · simp [execute, effect, Action.store, turn, Move.rename, Workspace.world, World.proceed]
  | load =>
    rcases stack.eq_empty_or_push with rfl | ⟨stack, address, rfl⟩
    · rfl
    · simp [execute, effect, Action.load, Action.push, turn, Move.rename, Workspace.world,
        World.proceed]
  | ret =>
    rcases calls with _ | ⟨_ | slot, calls⟩ <;> rfl
  | stop =>
    simp only [execute, effect, Action.bind_apply, Action.flush_apply, Workspace.world]
    rcases streams.flush with ⟨_ | message, streams⟩ <;> rfl
  | print format =>
    rcases streams with ⟨input, _ | sink⟩
    · rfl
    · rcases stack.eq_empty_or_push with rfl | ⟨stack, word, rfl⟩
      · rfl
      · simp only [execute, effect, Action.bind_apply, Action.requireOutput, Action.pop_push,
          Workspace.world, Stack.reverse_toList_push]
        rcases format.print word with cause | text
        · rfl
        · rcases h : sink.write (Utf8.encode text) with ⟨_ | message, sink'⟩ <;>
            simp [Action.write, h, turn, Move.rename, Workspace.world, World.proceed, World.refuse]
  | read format =>
    rcases streams with ⟨_ | input, output⟩
    · rfl
    · rcases stack.eq_empty_or_push with rfl | ⟨stack, address, rfl⟩
      · rfl
      · simp only [execute, effect, Action.bind_apply, Action.requireInput, Action.pop_push,
          Action.flush_apply, Workspace.world, Stack.reverse_toList_push]
        rcases h : Streams.flush ⟨some input, output⟩ with ⟨_ | message, input', output'⟩
        · obtain rfl : some input = input' := by
            rcases output with _ | sink <;> simp_all [Streams.flush]
          rcases hr : format.reading input with ⟨word, input'⟩ | ⟨cause, input'⟩ <;>
            simp [Action.read, hr, Action.store, turn, Move.rename, Workspace.world,
              World.proceed, World.refuse]
        · rfl

/-- **Executing a node has the effect of its instruction**, whatever the slots are called. -/
theorem Node.execute_effect (node : Node) (w : Workspace) :
    turn rename (node.execute w) =
      node.instruction.effect (node.next.map rename) (node.branch.map rename)
        (w.world rename) := by
  rw [Node.execute_eq]
  rcases node with ⟨index, op | op | op, next, branch⟩
  · exact op.execute_effect rename _ w
  · exact op.execute_effect rename _ w
  · exact op.execute_effect rename w

end Whitespace
