import Mathlib.Data.List.Induction
import Whitespace.Proofs.Runs

/-!
# Copying and sliding, at every depth

A copy pushes the word at a depth below the top, and a slide takes that many words from below the
top.  Both refuse a negative number at once, and both find the stack too short if the number is not
smaller than its size; only then has a slide lost the top (`copy_slide_of_step`).

A slide is the same as swapping and discarding so many times.  The words of a slide are taken all at
once here, which is the same as taking them one by one: when the size has been checked no single
pop fails (`Action.popEach_eq`, `NumberOp.slide_execute`).

## Main definitions

* `Action.popEach count` — takes words off the stack one by one.
* `NumberOp.slideEach operand` — a slide that takes its words one by one.
* `Program.Row program slot ops last` — operations stand one behind another, from a slot on.
* `Machine.Outcome.Counts` — when a step that counts words succeeds, and how it fails.
-/

namespace Whitespace

/-! ## Taking words one by one -/

namespace Action

/-- Takes words off the stack one by one. -/
def popEach : Nat → Action Unit
  | 0 => pure ()
  | count + 1 => do
    let _ ← pop
    popEach count

/-- Fails unless the stack has so many words. -/
def requireWords (count : Nat) : Action Unit := fun w =>
  if w.stack.size < count then .error .stackUnderflow w else .ok () w

end Action

/-- A slide that takes its words one by one. -/
def NumberOp.slideEach (operand : Int64) : Action Move := do
  let count ← Action.natural operand
  let top ← Action.pop
  Action.requireWords count
  Action.popEach count
  Action.push top
  return .next

namespace Stack

theorem drop_zero (s : Stack) : s.drop 0 = s := by
  ext1
  simp [← length_toList]

@[simp] theorem toList_pop (s : Stack) : s.pop.toList = s.toList.dropLast := by
  simp [pop, toList]

@[simp] theorem size_push (s : Stack) (word : Int64) : (s.push word).size = s.size + 1 := by
  simp [← length_toList]

theorem drop_push_succ (s : Stack) (word : Int64) (count : Nat) :
    (s.push word).drop (count + 1) = s.drop count := by
  ext1
  rw [toList_drop, toList_drop, toList_push, size_push, Nat.add_sub_add_right,
    List.take_append_of_le_length (by simp)]

end Stack

/-- **Words that the stack has can be taken one by one**, and none of the pops fails. -/
theorem Action.popEach_eq {count : Nat} {w : Workspace} (enough : count ≤ w.stack.size) :
    popEach count w = .ok () { w with stack := w.stack.drop count } := by
  induction count generalizing w with
  | zero =>
    rw [Stack.drop_zero]
    rfl
  | succ count ih =>
    rcases w with ⟨stack, calls, heap, streams⟩
    rcases stack.eq_empty_or_push with rfl | ⟨stack, top, rfl⟩
    · exact absurd enough (Nat.not_succ_le_zero count)
    · have enough : count + 1 ≤ stack.size + 1 := by simpa using enough
      rw [popEach, bind_apply, pop_push, Stack.drop_push_succ]
      exact ih (w := ⟨stack, calls, heap, streams⟩) (Nat.le_of_succ_le_succ enough)

/-- **A slide takes its words one by one.** -/
theorem NumberOp.slide_execute (operand : Int64) : slide.execute operand = slideEach operand := by
  funext w
  simp only [execute, slideEach, Action.bind_apply, Action.natural_apply]
  by_cases negative : operand < 0
  · simp only [negative, if_true]
  · simp only [negative, if_false]
    cases popped : Action.pop w with
    | error cause w => rfl
    | ok top w =>
      simp only [Action.drop, Action.requireWords]
      by_cases short : w.stack.size < operand.toInt.toNat
      · simp only [short, if_true]
      · simp only [short, if_false, Action.popEach_eq (Nat.le_of_not_lt short)]

/-! ## Words below the top -/

/-- A word has so many words above it. -/
theorem exists_above {words : List Int64} {count : Nat} (small : count < words.length) :
    ∃ below word above, words = below ++ word :: above ∧ above.length = count := by
  have bound : words.length - 1 - count < words.length := by omega
  refine ⟨words.take (words.length - 1 - count), words[words.length - 1 - count],
    words.drop (words.length - 1 - count + 1), ?_, ?_⟩
  · rw [List.getElem_cons_drop, List.take_append_drop]
  · rw [List.length_drop]
    omega

/-- So many words lie next to the top. -/
theorem exists_slid {words : List Int64} {count : Nat} (small : count < words.length) :
    ∃ below slid top, words = below ++ slid ++ [top] ∧ slid.length = count := by
  rcases List.eq_nil_or_concat words with rfl | ⟨rest, top, rfl⟩
  · exact absurd small (Nat.not_lt_zero count)
  · rw [List.concat_eq_append, List.length_append, List.length_singleton] at small
    refine ⟨rest.take (rest.length - count), rest.drop (rest.length - count), top, ?_, ?_⟩
    · rw [List.take_append_drop, List.concat_eq_append]
    · rw [List.length_drop]
      omega

/-! ## Effects -/

namespace NumberOp

variable {n : Int64} {w : World} {top word : Int64} {above slid below : List Int64}

theorem neg_iff : n < 0 ↔ n.toInt < 0 := by
  rw [Int64.lt_iff_toInt_lt, Int64.toInt_zero]

/-- A negative number is refused, with the stack as it was. -/
theorem effect_of_neg {op : NumberOp} (counts : op ≠ .push) (negative : n.toInt < 0) :
    op.effect n w = w.refuse w.stack (.invalidOperand n) := by
  cases op with
  | push => exact absurd rfl counts
  | copy | slide => rw [effect, if_pos (neg_iff.mpr negative)]

/-- A copy finds the stack too short. -/
theorem effect_copy_of_short (natural : 0 ≤ n.toInt) (short : (w.stack.length : Int) ≤ n.toInt) :
    copy.effect n w = w.refuse w.stack .stackUnderflow := by
  have nothing : w.stack[n.toInt.toNat]? = none := List.getElem?_eq_none (by omega)
  simp only [effect, neg_iff, Int.not_lt.mpr natural, if_false, nothing]

/-- A slide finds the stack too short, and has lost the top. -/
theorem effect_slide_of_short (natural : 0 ≤ n.toInt) (short : (w.stack.length : Int) ≤ n.toInt) :
    slide.effect n w = w.refuse w.stack.tail .stackUnderflow := by
  simp only [effect, neg_iff, Int.not_lt.mpr natural, if_false]
  cases words : w.stack with
  | nil => rfl
  | cons top below =>
    have less : below.length < n.toInt.toNat := by
      rw [words, List.length_cons] at short
      omega
    simp only [if_pos less, List.tail_cons]

/-- A copy of the word at a depth. -/
theorem effect_copy (words : w.stack = above ++ word :: below)
    (depth : (above.length : Int) = n.toInt) :
    copy.effect n w = w.proceed (word :: w.stack) := by
  have found : w.stack[n.toInt.toNat]? = some word := by
    rw [words, ← depth]
    simp
  have natural : ¬n.toInt < 0 := by omega
  simp only [effect, neg_iff, natural, if_false, found]

/-- A slide that takes some words. -/
theorem effect_slide (words : w.stack = top :: (slid ++ below))
    (count : (slid.length : Int) = n.toInt) :
    slide.effect n w = w.proceed (top :: below) := by
  have natural : ¬n.toInt < 0 := by omega
  have enough : ¬(slid ++ below).length < n.toInt.toNat := by
    rw [List.length_append]
    omega
  have rest : (slid ++ below).drop n.toInt.toNat = below := by
    rw [← count]
    simp
  simp only [effect, neg_iff, natural, if_false, words, enough, rest]

end NumberOp

/-! ## Rows of instructions -/

/-- Operations stand one behind another from a slot on, up to the slot `last`; each leads on to the
next one. -/
inductive Program.Row (program : Program) : Option Nat → List PlainOp → Option Nat → Prop where
  | nil (slot : Option Nat) : Row program slot [] slot
  | cons {slot : Nat} {node : Node} {op : PlainOp} {ops : List PlainOp} {last : Option Nat}
      (stands : program.node? slot = some node) (instruction : node.instruction = .plain op)
      (later : Row program node.next ops last) : Row program (some slot) (op :: ops) last

/-- A swap and a discard, so many times. -/
def swapDiscards (count : Nat) : List PlainOp :=
  (List.replicate count [.swap, .discard]).flatten

namespace Machine

variable {config : Config} {program : Program} {m : Machine} {streams : Streams} {node : Node}

/-- A machine runs and stands at the slot, if it is one. -/
def StandsAt (m : Machine) (slot : Option Nat) : Prop :=
  ∀ s, slot = some s → m.state = .running ∧ m.current = s

/-- A step whose effect goes on leaves the machine running at the next node, if there is one. -/
theorem Executes.standsAt_next {w : World} {stack : List Int64}
    (executes : m.Executes program node) (config : Config)
    (goes_on : node.instruction.effect node.next node.branch (m.walker id streams).world =
      w.proceed stack) :
    (m.step config program streams).machine.StandsAt node.next := by
  intro slot next
  have visit := executes.visit streams config
  rw [Walker.visit, goes_on] at visit
  simp only [World.proceed, next] at visit
  have machine := (Prod.mk.inj visit).2
  exact ⟨(congrArg Walker.state machine).symm, (congrArg Walker.current machine).symm⟩

/-- The first of a row of instructions is executed. -/
theorem StandsAt.executes {slot last : Option Nat} {op : PlainOp} {ops : List PlainOp}
    (stands : m.StandsAt slot) (row : program.Row slot (op :: ops) last) :
    ∃ node, m.Executes program node ∧ node.instruction = .plain op ∧
      program.Row node.next ops last := by
  cases row with
  | @cons slot node _ _ _ found instruction later =>
    obtain ⟨running, current⟩ := stands slot rfl
    exact ⟨node, ⟨running, current ▸ found⟩, instruction, later⟩

/-- A step of an instruction of a row. -/
theorem Executes.step_plain {op : PlainOp} {w : World} {stack : List Int64}
    (executes : m.Executes program node) (instruction : node.instruction = .plain op)
    (goes_on : op.effect (m.walker id streams).world = w.proceed stack) (config : Config) :
    (m.step config program streams).machine.StandsAt node.next ∧
      (m.step config program streams).machine.stack.toList = stack.reverse := by
  have effect : node.instruction.effect node.next node.branch (m.walker id streams).world =
      w.proceed stack := by
    rw [instruction]
    exact goes_on
  exact ⟨executes.standsAt_next config effect, (executes.step_proceed config effect).2⟩

/-- **Swapping and discarding** so many times takes so many words from below the top. -/
theorem after_swapDiscards (config : Config) {below slid : List Int64} {top : Int64}
    {slot last : Option Nat} (stands : m.StandsAt slot)
    (row : program.Row slot (swapDiscards slid.length) last)
    (words : m.stack.toList = below ++ slid ++ [top]) :
    (after config program (2 * slid.length) m streams).1.stack.toList = below ++ [top] := by
  -- The word that goes first is the one next to the top.
  induction slid using List.reverseRecOn generalizing m streams slot with
  | nil => simpa [after] using words
  | append_singleton slid word ih =>
    rw [List.length_append, List.length_singleton] at row ⊢
    obtain ⟨swap, swaps, swapping, row⟩ := stands.executes row
    have swapped : PlainOp.swap.effect (m.walker id streams).world =
        (m.walker id streams).world.proceed (word :: top :: (below ++ slid).reverse) := by
      simp [PlainOp.effect, walker_stack, words]
    obtain ⟨stands, words⟩ := swaps.step_plain swapping swapped config
    obtain ⟨discard, discards, discarding, row⟩ := stands.executes row
    let o := m.step config program streams
    have discarded : PlainOp.discard.effect (o.machine.walker id o.streams).world =
        (o.machine.walker id o.streams).world.proceed (top :: (below ++ slid).reverse) := by
      simp [PlainOp.effect, walker_stack, o, words]
    obtain ⟨stands, words⟩ := discards.step_plain discarding discarded config
    exact ih stands row (by simpa using words)

/-! ## Steps that count words -/

/-- How a step ends that counts words below the top: it succeeds if the number is natural and
smaller than the size of the stack, refuses a negative number, and finds the stack too short
otherwise, leaving the given words. -/
structure Outcome.Counts (o : Outcome) (m : Machine) (node : Node) (n : Int64) (left : List Int64) :
    Prop where
  succeeds_iff : o.result = onward node ↔ 0 ≤ n.toInt ∧ n.toInt < m.stack.size
  negative : n.toInt < 0 →
    o.result = .error ⟨.invalidOperand n, some ⟨node.instruction, node.index⟩⟩ ∧
      o.machine.stack.toList = m.stack.toList
  short : m.stack.size ≤ n.toInt →
    o.result = .error ⟨.stackUnderflow, some ⟨node.instruction, node.index⟩⟩ ∧
      o.machine.stack.toList = left

/-- A step that goes on does not fail, unless the program ends. -/
theorem onward_ne_error {cause : Cause} {site : Option Site} (inside : cause ≠ .prematureEnd) :
    onward node ≠ .error ⟨cause, site⟩ := by
  intro same
  rw [onward] at same
  split at same
  · cases same
  · cases same
    exact inside rfl

variable {op : NumberOp} {n : Int64} {left : List Int64}

theorem effect_number (instruction : node.instruction = .number op n) (w : World) :
    node.instruction.effect node.next node.branch w = op.effect n w := by
  rw [instruction]
  rfl

/-- The effect of a step that counts words tells how it ends. -/
theorem Executes.counts (executes : m.Executes program node)
    (instruction : node.instruction = .number op n) (counts : op ≠ .push) (config : Config)
    (short : 0 ≤ n.toInt → m.stack.size ≤ n.toInt →
      op.effect n (m.walker id streams).world =
        (m.walker id streams).world.refuse left.reverse .stackUnderflow)
    (fits : 0 ≤ n.toInt → n.toInt < m.stack.size →
      ∃ stack, op.effect n (m.walker id streams).world =
        (m.walker id streams).world.proceed stack) :
    (m.step config program streams).Counts m node n left := by
  have effect := effect_number instruction (m.walker id streams).world
  have of_neg (negative : n.toInt < 0) :=
    executes.step_refuse config (effect.trans (NumberOp.effect_of_neg counts negative))
  have of_short (natural : 0 ≤ n.toInt) (enough : m.stack.size ≤ n.toInt) :=
    executes.step_refuse config (effect.trans (short natural enough))
  refine ⟨⟨?_, ?_⟩, ?_, ?_⟩
  · intro succeeds
    by_contra bad
    by_cases natural : 0 ≤ n.toInt
    · have failed := (of_short natural (by omega)).1
      exact onward_ne_error Cause.noConfusion (succeeds.symm.trans failed)
    · have failed := (of_neg (by omega)).1
      exact onward_ne_error Cause.noConfusion (succeeds.symm.trans failed)
  · rintro ⟨natural, small⟩
    obtain ⟨stack, goes_on⟩ := fits natural small
    exact (executes.step_proceed config (effect.trans goes_on)).1
  · intro negative
    simpa [walker_stack] using of_neg negative
  · intro enough
    have natural : 0 ≤ n.toInt := by omega
    simpa using of_short natural enough

/-- A copy of zero depth is a duplicate. -/
theorem execute_copy_zero : NumberOp.copy.execute 0 = PlainOp.duplicate.execute := rfl

/-- The word that a copy pushes. -/
theorem exists_copied (natural : 0 ≤ n.toInt) (small : n.toInt < m.stack.size)
    (streams : Streams) :
    ∃ below word above, m.stack.toList = below ++ word :: above ∧
      (above.length : Int) = n.toInt ∧
      NumberOp.copy.effect n (m.walker id streams).world =
        (m.walker id streams).world.proceed (word :: m.stack.toList.reverse) := by
  have small : n.toInt.toNat < m.stack.toList.length := by
    rw [Stack.length_toList]
    omega
  obtain ⟨below, word, above, words, depth⟩ := exists_above small
  have depth : (above.length : Int) = n.toInt := by omega
  have shown : (m.walker id streams).world.stack = above.reverse ++ word :: below.reverse := by
    simp [walker_stack, words]
  exact ⟨below, word, above, words, depth, NumberOp.effect_copy shown (by simpa using depth)⟩

/-- The words that a slide takes. -/
theorem exists_taken (natural : 0 ≤ n.toInt) (small : n.toInt < m.stack.size)
    (streams : Streams) :
    ∃ below slid top, m.stack.toList = below ++ slid ++ [top] ∧ (slid.length : Int) = n.toInt ∧
      NumberOp.slide.effect n (m.walker id streams).world =
        (m.walker id streams).world.proceed (top :: below.reverse) := by
  have small : n.toInt.toNat < m.stack.toList.length := by
    rw [Stack.length_toList]
    omega
  obtain ⟨below, slid, top, words, count⟩ := exists_slid small
  have count : (slid.length : Int) = n.toInt := by omega
  have shown : (m.walker id streams).world.stack = top :: (slid.reverse ++ below.reverse) := by
    simp [walker_stack, words]
  exact ⟨below, slid, top, words, count, NumberOp.effect_slide shown (by simpa using count)⟩

/-- A step of a copy. -/
theorem Executes.copy (executes : m.Executes program node)
    (instruction : node.instruction = .number .copy n) (config : Config) (streams : Streams) :
    (m.step config program streams).Counts m node n m.stack.toList := by
  apply executes.counts instruction NumberOp.noConfusion
  · intro natural short
    exact NumberOp.effect_copy_of_short natural (by simpa [walker_stack] using short)
  · intro natural small
    obtain ⟨-, word, -, -, -, copies⟩ := exists_copied natural small streams
    exact ⟨_, copies⟩

/-- A step of a slide. -/
theorem Executes.slide (executes : m.Executes program node)
    (instruction : node.instruction = .number .slide n) (config : Config) (streams : Streams) :
    (m.step config program streams).Counts m node n m.stack.toList.dropLast := by
  apply executes.counts instruction NumberOp.noConfusion
  · intro natural short
    rw [← List.tail_reverse, ← walker_stack m streams]
    exact NumberOp.effect_slide_of_short natural (by simpa [walker_stack] using short)
  · intro natural small
    obtain ⟨below, -, top, -, -, slides⟩ := exists_taken natural small streams
    exact ⟨_, slides⟩

/-- **Copying and sliding, at every depth.**  Let a step execute a copy or a slide.

* A copy leaves the stack as it was when it fails, and a slide has lost the top if the stack was too
  short.  In all other respects they succeed and fail alike.
* A copy that succeeds pushes the word that has as many words above it as the number says.  A copy
  of depth zero is a duplicate.
* A slide takes its words one by one.  When it succeeds, so many words from below the top are gone,
  as they are after so many swaps and discards, and no pop on the way finds the stack too short. -/
theorem copy_slide_of_step (executes : m.Executes program node)
    (instruction : node.instruction = .number op n) (config : Config) (streams : Streams) :
    let o := m.step config program streams
    (op = .copy →
      o.Counts m node n m.stack.toList ∧
      (0 ≤ n.toInt → n.toInt < m.stack.size → ∃ below word above,
        m.stack.toList = below ++ word :: above ∧ (above.length : Int) = n.toInt ∧
          o.machine.stack.toList = m.stack.toList ++ [word]) ∧
      (n = 0 → node.execute = PlainOp.duplicate.execute)) ∧
    (op = .slide →
      o.Counts m node n m.stack.toList.dropLast ∧
      node.execute = NumberOp.slideEach n ∧
      (0 ≤ n.toInt → n.toInt < m.stack.size → ∃ below slid top,
        m.stack.toList = below ++ slid ++ [top] ∧ (slid.length : Int) = n.toInt ∧
          o.machine.stack.toList = below ++ [top] ∧
          (∀ config' program' m' streams' last, m'.state = .running → m'.stack = m.stack →
            program'.Row (some m'.current) (swapDiscards slid.length) last →
              (after config' program' (2 * slid.length) m' streams').1.stack = o.machine.stack) ∧
          ∀ i ≤ slid.length, i ≤ m.stack.pop.size ∧
            Action.popEach i { m.workspace streams with stack := m.stack.pop } =
              .ok () { m.workspace streams with stack := m.stack.pop.drop i })) := by
  intro o
  constructor
  · rintro rfl
    refine ⟨executes.copy instruction config streams, ?_, ?_⟩
    · intro natural small
      obtain ⟨below, word, above, words, depth, copies⟩ := exists_copied natural small streams
      refine ⟨below, word, above, words, depth, ?_⟩
      simpa using (executes.step_proceed config ((effect_number instruction _).trans copies)).2
    · rintro rfl
      rw [Node.execute_eq, instruction]
      exact execute_copy_zero
  · rintro rfl
    refine ⟨executes.slide instruction config streams, ?_, ?_⟩
    · rw [Node.execute_eq, instruction]
      exact NumberOp.slide_execute n
    · intro natural small
      obtain ⟨below, slid, top, words, count, slides⟩ := exists_taken natural small streams
      have left : o.machine.stack.toList = below ++ [top] := by
        simpa using (executes.step_proceed config ((effect_number instruction _).trans slides)).2
      refine ⟨below, slid, top, words, count, left, ?_, ?_⟩
      · intro config' program' m' streams' last running same row
        apply Stack.ext_toList
        rw [left]
        refine after_swapDiscards config' ?_ row (same ▸ words)
        intro slot stands
        exact ⟨running, Option.some.inj stands⟩
      · intro i small
        have size : m.stack.pop.size = below.length + slid.length := by
          rw [← Stack.length_toList, Stack.toList_pop, words]
          simp
        have enough : i ≤ m.stack.pop.size := by omega
        exact ⟨enough,
          Action.popEach_eq (w := { m.workspace streams with stack := m.stack.pop }) enough⟩

/-- Sliding two of four words is swapping and discarding twice, and a copy finds the lowest of four
words but nothing below it. -/
theorem copy_slide_of_step_four :
    let program : Program :=
      ⟨#[⟨0, .number .slide 2, some 1, none⟩, ⟨1, .plain .swap, some 2, none⟩,
        ⟨2, .plain .discard, some 3, none⟩, ⟨3, .plain .swap, some 4, none⟩,
        ⟨4, .plain .discard, some 5, none⟩, ⟨5, .number .copy 3, some 6, none⟩,
        ⟨6, .number .copy 4, none, none⟩]⟩
    let m (slot : Nat) : Machine := { stack := .ofList [1, 2, 3, 4], current := slot }
    (after {} program 4 (m 1) {}).1.stack = ((m 0).step {} program {}).machine.stack ∧
      ((m 5).step {} program {}).result = .ok .running ∧
      ((m 6).step {} program {}).result =
        .error ⟨.stackUnderflow, some ⟨.number .copy 4, 6⟩⟩ := by
  intro program m
  have at_slide : (m 0).Executes program ⟨0, .number .slide 2, some 1, none⟩ := ⟨rfl, rfl⟩
  have at_copy : (m 5).Executes program ⟨5, .number .copy 3, some 6, none⟩ := ⟨rfl, rfl⟩
  have at_last : (m 6).Executes program ⟨6, .number .copy 4, none, none⟩ := ⟨rfl, rfl⟩
  obtain ⟨-, slides⟩ := copy_slide_of_step at_slide rfl {} {}
  obtain ⟨-, -, slides⟩ := slides rfl
  obtain ⟨below, slid, top, -, count, -, same, -⟩ := slides (by decide) (by decide)
  have two : slid.length = 2 := by
    have : (slid.length : Int) = 2 := count
    omega
  rw [two] at same
  have row : program.Row (some 1) (swapDiscards 2) (some 5) :=
    .cons rfl rfl (.cons rfl rfl (.cons rfl rfl (.cons rfl rfl (.nil (some 5)))))
  obtain ⟨finds, -⟩ := (copy_slide_of_step at_copy rfl {} {}).1 rfl
  obtain ⟨misses, -⟩ := (copy_slide_of_step at_last rfl {} {}).1 rfl
  exact ⟨same {} program (m 1) {} (some 5) rfl rfl row, finds.succeeds_iff.mpr (by decide),
    (misses.short (by decide)).1⟩

end Machine

end Whitespace
