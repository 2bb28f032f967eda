import Mathlib.Data.List.Sort
import Mathlib.Logic.Function.Basic
import Whitespace.Proofs.Frame
import Whitespace.Proofs.Moments
import Whitespace.Proofs.Rerun
import Whitespace.Proofs.SparedHeap

/-!
# The cells of the heap

The heap has a word at every address: the one that was written there last, or zero.  Only stores and
reads write, and only if they succeed; a step that fails half-way has not touched the heap, while
one that only finds nothing to go on to has written (`Machine.get_step`,
`Machine.Executes.heap_of_error`).  So a cell tells of the last write to it since the machine was at
the beginning (`Machine.get_eq_lastWritten`).

Whether a cell that holds zero is stored or not makes no difference.  Machines whose heaps differ in
such cells only take the same steps (`Machine.Alike.step`), and they report the same cells, because
the words at all addresses determine the list (`Heap.mem_nonzero`, `Heap.pairwise_nonzero`).

## Main definitions

* `Instruction.write? i w`, `Machine.write? program m streams` — what an instruction, or the next
  step, writes to the heap.
* `lastWritten writes address` — the word that was written last to an address.
* `Heap.Alike h h'`, `Machine.Alike m m'` — equal but for stored cells that hold zero.
-/

namespace Whitespace

/-! ## Heaps -/

namespace Heap

/-- The cells in which the heaps differ are not stored or hold zero. -/
def Alike (h h' : Heap) : Prop :=
  ∀ address : Int64, h.cells[address]? ≠ h'.cells[address]? →
    h.cells[address]?.getD 0 = 0 ∧ h'.cells[address]?.getD 0 = 0

variable {h h' : Heap} {address word : Int64}

theorem get_eq_getElem? (h : Heap) (address : Int64) :
    h.get address = h.cells[address]?.getD 0 := by
  rw [get, Std.TreeMap.getD_eq_getD_getElem?]

/-- Heaps are alike if they have the same words. -/
theorem alike_iff : h.Alike h' ↔ h.get = h'.get := by
  constructor
  · intro alike
    funext address
    rw [get_eq_getElem?, get_eq_getElem?]
    by_cases same : h.cells[address]? = h'.cells[address]?
    · rw [same]
    · obtain ⟨zero, zero'⟩ := alike address same
      rw [zero, zero']
  · intro same address differ
    have equal := congrFun same address
    rw [get_eq_getElem?, get_eq_getElem?] at equal
    cases left : h.cells[address]? <;> cases right : h'.cells[address]? <;> simp_all

/-- **The cells listed** are those that do not hold zero. -/
theorem mem_nonzero : (address, word) ∈ h.nonzero ↔ h.get address = word ∧ word ≠ 0 := by
  rw [nonzero, List.mem_filter, Std.TreeMap.mem_toList_iff_getElem?_eq_some, get_eq_getElem?]
  cases h.cells[address]? with
  | none =>
    simp only [reduceCtorEq, false_and, Option.getD_none, false_iff, not_and, not_not]
    exact Eq.symm
  | some stored => simp

/-- **The cells are listed by ascending address**, so each is listed once. -/
theorem pairwise_nonzero (h : Heap) : h.nonzero.Pairwise fun c d => c.1 < d.1 :=
  (h.cells.ordered_keys_toList.imp Std.compare_eq_lt.mp).filter _

/-- Heaps that are alike list the same cells. -/
theorem Alike.nonzero_eq (alike : h.Alike h') : h'.nonzero = h.nonzero := by
  have irrefl : Std.Irrefl fun c d : Int64 × Int64 => c.1 < d.1 := ⟨fun c => Int64.lt_irrefl⟩
  have antisymm : Std.Antisymm fun c d : Int64 × Int64 => c.1 < d.1 :=
    ⟨fun c d less greater => absurd greater (Int64.lt_asymm less)⟩
  apply h'.pairwise_nonzero.eq_of_mem_iff h.pairwise_nonzero
  rintro ⟨address, word⟩
  rw [mem_nonzero, mem_nonzero, alike_iff.mp alike]

end Heap

/-! ## Writes -/

/-- A word that is written to an address. -/
structure Write where
  address : Int64
  word : Int64
  deriving DecidableEq, Repr

/-- The words by address behind a write, if there is one. -/
def afterWrite (heap : Int64 → Int64) : Option Write → Int64 → Int64
  | none => heap
  | some x => Function.update heap x.address x.word

/-- The word that was written last to an address, or zero. -/
def lastWritten (writes : List Write) (address : Int64) : Int64 :=
  match (writes.filter fun x => x.address = address).getLast? with
  | some x => x.word
  | none => 0

/-- What an instruction writes: a store writes the top word to the address below it, and a read
writes the word it has read to the address on top, if it can be read. -/
def Instruction.write? (i : Instruction) (w : World) : Option Write :=
  match i, w.stack with
  | .plain .store, word :: address :: _ => some ⟨address, word⟩
  | .plain (.read format), address :: _ =>
    match w.streams.input, w.streams.flush.1 with
    | some input, none =>
      match format.reading input with
      | .ok word _ => some ⟨address, word⟩
      | .error .. => none
    | _, _ => none
  | _, _ => none

/-- The instruction is a store or a read. -/
def Instruction.Writes (i : Instruction) : Prop :=
  i = .plain .store ∨ ∃ format, i = .plain (.read format)

/-- One more write, and the last word at each address. -/
theorem lastWritten_append (writes : List Write) (x : Option Write) :
    lastWritten (writes ++ x.toList) = afterWrite (lastWritten writes) x := by
  funext address
  cases x with
  | none => simp [afterWrite]
  | some x =>
    by_cases here : x.address = address
    · simp [lastWritten, afterWrite, here]
    · simp [lastWritten, afterWrite, here, Function.update_of_ne (Ne.symm here)]

theorem World.leave_heap (w : World) (target : Option Nat) : (w.leave target).2.heap = w.heap := by
  cases target <;> rfl

variable {follow target : Option Nat} {w : World}

theorem NumberOp.effect_heap (op : NumberOp) (operand : Int64) (w : World) :
    (op.effect operand w).2.heap = w.heap := by
  cases op with
  | push => rfl
  | copy =>
    simp only [effect]
    split
    · rfl
    · split <;> rfl
  | slide =>
    simp only [effect]
    split
    · rfl
    · split
      · rfl
      · split <;> rfl

theorem LabelOp.effect_heap (op : LabelOp) (follow target : Option Nat) (w : World) :
    (op.effect follow target w).2.heap = w.heap := by
  cases op with
  | define => rfl
  | call => cases target <;> rfl
  | jump => exact w.leave_heap target
  | jumpIf condition =>
    simp only [effect]
    split
    · rfl
    · split
      · exact World.leave_heap _ target
      · rfl

/-- What an instruction without operand does to the heap: it writes, or it fails to. -/
theorem PlainOp.effect_heap (op : PlainOp) (w : World) :
    (op.effect w).2.heap = afterWrite w.heap ((Instruction.plain op).write? w) := by
  rcases w with ⟨stack, calls, heap, streams⟩
  cases op with
  | duplicate | discard | load => rcases stack with _ | ⟨top, stack⟩ <;> rfl
  | swap | store => rcases stack with _ | ⟨top, _ | ⟨below, stack⟩⟩ <;> rfl
  | calculate calculation =>
    rcases stack with _ | ⟨right, _ | ⟨left, stack⟩⟩
    · rfl
    · rfl
    · simp only [effect]
      split <;> rfl
  | ret => rcases calls with _ | ⟨_ | slot, calls⟩ <;> rfl
  | stop =>
    simp only [effect]
    split <;> rfl
  | print format =>
    rcases streams with ⟨input, _ | sink⟩
    · rfl
    · rcases stack with _ | ⟨word, stack⟩
      · rfl
      · simp only [effect]
        split
        · rfl
        · split <;> rfl
  | read format =>
    rcases streams with ⟨_ | input, output⟩
    · cases stack <;> rfl
    · rcases stack with _ | ⟨address, stack⟩
      · rfl
      · simp only [effect, Instruction.write?]
        rcases Streams.flush ⟨some input, output⟩ with ⟨_ | message, streams⟩
        · cases read : format.reading input <;> simp only [read] <;> rfl
        · rfl

/-- **What an instruction does to the heap**: what it writes is there, and the other words are as
they were. -/
theorem Instruction.effect_heap (i : Instruction) (follow target : Option Nat) (w : World) :
    (i.effect follow target w).2.heap = afterWrite w.heap (i.write? w) := by
  cases i with
  | number op operand => exact op.effect_heap operand w
  | label op name => exact op.effect_heap follow target w
  | plain op => exact op.effect_heap w

/-- **Stores and reads write if they succeed**, and nothing else writes. -/
theorem Instruction.write?_isSome_iff (i : Instruction) (follow target : Option Nat) (w : World) :
    (i.write? w).isSome ↔ i.Writes ∧ ∃ move, (i.effect follow target w).1 = .ok move := by
  by_cases store : i = .plain .store
  · subst store
    rcases w with ⟨_ | ⟨word, _ | ⟨address, stack⟩⟩, calls, heap, streams⟩ <;>
      simp [write?, Writes, effect, PlainOp.effect]
  by_cases read : ∃ format, i = .plain (.read format)
  · obtain ⟨format, rfl⟩ := read
    rcases w with ⟨stack, calls, heap, ⟨_ | input, output⟩⟩
    · cases stack <;> simp [write?, Writes, effect, PlainOp.effect]
    · cases stack with
      | nil => simp [write?, Writes, effect, PlainOp.effect]
      | cons address stack =>
        simp only [write?, Writes, effect, PlainOp.effect]
        rcases Streams.flush ⟨some input, output⟩ with ⟨_ | message, streams⟩
        · cases read : format.reading input <;> simp [read]
        · simp
  · have silent : i.write? w = none := by
      unfold write?
      split
      · exact absurd rfl store
      · exact absurd ⟨_, rfl⟩ read
      · rfl
    simp [silent, Writes, store, read]

/-! ## Machines -/

namespace Machine

/-- What the next step writes to the heap. -/
def write? (program : Program) (m : Machine) (streams : Streams) : Option Write :=
  (m.next? program).bind fun node => node.instruction.write? (m.walker id streams).world

/-- The machines are equal but for stored cells that hold zero. -/
def Alike (m m' : Machine) : Prop :=
  ∃ heap, m' = { m with heap } ∧ m.heap.Alike heap

variable {config : Config} {program : Program} {m m' : Machine} {streams streams' : Streams}
  {node : Node}

/-- A step that executes no node leaves the heap alone. -/
theorem heap_of_idle (idle : m.next? program = none) (config : Config) (streams : Streams) :
    (m.step config program streams).machine.heap = m.heap := by
  by_cases running : m.state = .running
  · rw [next?, if_pos running] at idle
    simp only [step, running, idle]
    rfl
  · rw [step_of_not_running config program streams running]

/-- **What a step does to the heap**: what it writes is there, and the other words are as they
were. -/
theorem get_step (config : Config) (program : Program) (m : Machine) (streams : Streams) :
    (m.step config program streams).machine.heap.get =
      afterWrite m.heap.get (m.write? program streams) := by
  cases executed : m.next? program with
  | none =>
    rw [heap_of_idle executed, write?, executed]
    rfl
  | some node =>
    have visit := (next?_eq_some_iff.mp executed).visit streams config
    have left := congrArg (fun w => w.2.world.heap) visit
    rw [write?, executed]
    rw [Walker.visit_world, Instruction.effect_heap] at left
    exact left.symm

/-- The step of a node leaves the heap that the node leaves, also if nothing follows the node. -/
theorem Executes.heap_eq (executes : m.Executes program node) (config : Config)
    (streams : Streams) :
    (m.step config program streams).machine.heap =
      (leftOf (node.execute (m.workspace streams))).heap := by
  obtain ⟨slot, state, left, -⟩ := executes.left_eq config streams
  rw [left]
  rfl

/-- **A step whose node fails** leaves the heap as it is. -/
theorem Executes.heap_of_error {cause : Cause} {w : Workspace} (executes : m.Executes program node)
    (failed : node.execute (m.workspace streams) = .error cause w) (config : Config) :
    (m.step config program streams).machine.heap = m.heap := by
  rw [executes.heap_eq, failed]
  exact node.execute_spares _ cause w failed

/-- **A step writes** if its node is a store or a read and does not fail. -/
theorem Executes.write?_isSome_iff (executes : m.Executes program node) (streams : Streams) :
    (m.write? program streams).isSome ↔
      node.instruction.Writes ∧ ∃ move w, node.execute (m.workspace streams) = .ok move w := by
  rw [write?, next?_eq_some_iff.mpr executes, Option.bind_some,
    node.instruction.write?_isSome_iff node.next node.branch, ← turn_workspace]
  cases node.execute (m.workspace streams) <;> simp [turn]

/-- **A cell tells of the last write to it** since the machine was at the beginning. -/
theorem get_eq_lastWritten {calls : List Call} {faults : List Fault}
    (history : History config program calls faults m) :
    m.heap.get = lastWritten ((track config program calls).past.filterMap
      fun now => now.machine.write? program now.streams) := by
  refine history.past_induction (P := fun past m => m.heap.get =
    lastWritten (past.filterMap fun now => now.machine.write? program now.streams)) ?_ ?_
  · funext address
    exact Heap.get_empty address
  · intro past m streams same
    have one :
        [(⟨m, streams⟩ : Moment)].filterMap (fun now => now.machine.write? program now.streams) =
          (m.write? program streams).toList := by
      cases written : m.write? program streams <;> simp [written]
    rw [get_step, List.filterMap_append, one, lastWritten_append, same]

/-! ### Cells that hold zero -/

namespace Alike

/-- Such machines are the same on plain data. -/
theorem walker (alike : m.Alike m') (streams : Streams) :
    m'.walker id streams = m.walker id streams := by
  obtain ⟨heap, rfl, same⟩ := alike
  simp only [Machine.walker, Workspace.world, Heap.alike_iff.mp same]

/-- What is the same on plain data, and has taken as many steps, is alike. -/
theorem of_walker (same : m'.walker id streams' = m.walker id streams)
    (steps : m'.steps = m.steps) :
    m.Alike m' ∧ streams' = streams := by
  rcases m with ⟨stack, calls, heap, current, state, _⟩
  rcases m' with ⟨stack', calls', heap', current', state', _⟩
  simp only [Machine.walker, Workspace.world, Walker.mk.injEq, World.mk.injEq, Option.map_id_fun,
    List.map_id_fun, List.reverse_inj, id] at same steps
  obtain ⟨⟨words, rfl, get, rfl⟩, rfl, rfl⟩ := same
  obtain rfl := Stack.ext_toList words
  obtain rfl := steps
  exact ⟨⟨heap', rfl, Heap.alike_iff.mpr get.symm⟩, rfl⟩

theorem next?_eq (alike : m.Alike m') (program : Program) : m'.next? program = m.next? program := by
  obtain ⟨heap, rfl, -⟩ := alike
  rfl

/-- The same is reported of such machines. -/
theorem trace_eq (alike : m.Alike m') (config : Config) (node : Node) :
    m'.trace config node = m.trace config node := by
  obtain ⟨heap, rfl, same⟩ := alike
  simp only [trace, same.nonzero_eq]

/-- A node that is executed does the same, and leaves machines that are alike. -/
theorem executes (alike : m.Alike m') (executes : m.Executes program node) (config : Config)
    (streams : Streams) :
    let o := m.step config program streams
    let o' := m'.step config program streams
    o.machine.Alike o'.machine ∧ o'.result = o.result ∧ o'.streams = o.streams := by
  have executes' : m'.Executes program node :=
    next?_eq_some_iff.mp ((alike.next?_eq program).trans (next?_eq_some_iff.mpr executes))
  have visit := executes.visit streams config
  rw [← alike.walker, executes'.visit streams config] at visit
  obtain ⟨result, machine⟩ := Prod.mk.inj visit
  have steps : m'.steps = m.steps := by
    obtain ⟨heap, rfl, -⟩ := alike
    rfl
  obtain ⟨left, streams_eq⟩ := of_walker machine (by rw [executes.steps, executes'.steps, steps])
  exact ⟨left, result, streams_eq⟩

/-- **Machines that are alike take the same step**: it returns the same, does the same to the
streams, reports the same, and leaves machines that are alike. -/
theorem step (alike : m.Alike m') (config : Config) (program : Program) (streams : Streams) :
    let o := m.step config program streams
    let o' := m'.step config program streams
    o.machine.Alike o'.machine ∧ o'.result = o.result ∧ o'.streams = o.streams ∧
      o'.events = o.events := by
  intro o o'
  have same : o.machine.Alike o'.machine ∧ o'.result = o.result ∧ o'.streams = o.streams := by
    by_cases running : m.state = .running
    · cases stands : program.node? m.current with
      | some node => exact alike.executes ⟨running, stands⟩ config streams
      | none =>
        obtain ⟨heap, rfl, same⟩ := alike
        simp only [o, o', Machine.step, running, stands]
        exact ⟨⟨heap, rfl, same⟩, rfl, rfl⟩
    · obtain ⟨heap, rfl, same⟩ := alike
      simp only [o, o', step_of_not_running config program streams running,
        step_of_not_running config program (m := { m with heap }) streams running]
      exact ⟨⟨heap, rfl, same⟩, trivial, trivial⟩
  refine ⟨same.1, same.2.1, same.2.2, ?_⟩
  have steps : o'.machine.steps = o.machine.steps := by
    obtain ⟨heap, left, -⟩ := same.1
    rw [left]
  have before : o'.before = o.before := by
    have before := congrArg Outcome.before (step_config config program m streams)
    have before' := congrArg Outcome.before (step_config config program m' streams)
    simp only [alike.next?_eq] at before before'
    refine before'.trans (Eq.trans ?_ before.symm)
    cases m.next? program with
    | none => rfl
    | some node => exact alike.trace_eq config node
  rw [Outcome.events, Outcome.events, before, after_eq, after_eq, same.2.1, steps]

end Alike

/-- **Machines that are alike stay so**, whatever streams their steps are given. -/
theorem IsRun.alike {n n' : Nat → Machine} {streams : Nat → Streams}
    (run : IsRun config program n streams) (run' : IsRun config program n' streams)
    (alike : (n 0).Alike (n' 0)) (k : Nat) : (n k).Alike (n' k) := by
  induction k with
  | zero => exact alike
  | succ k ih =>
    rw [run k, run' k]
    exact (ih.step config program (streams k)).1

/-- **The cells are reported** if that is asked for, before a node is executed, and at no other
time. -/
theorem heap_mem_events (config : Config) (program : Program) (m : Machine) (streams : Streams)
    (cells : List (Int64 × Int64)) :
    .heap cells ∈ (m.step config program streams).events ↔
      config.debugHeap = true ∧ (m.next? program).isSome ∧ cells = m.heap.nonzero := by
  have behind : .heap cells ∉ (m.step config program streams).after := by
    obtain none_left | ⟨steps, f, fault⟩ := after_of_step config program m streams
    · simp [none_left]
    · simp [fault]
  rw [Outcome.events, List.mem_append, or_iff_left behind, step_config]
  cases m.next? program with
  | none => simp
  | some node =>
    obtain ⟨debug, debugHeap⟩ := config
    cases debug <;> cases debugHeap <;> simp [trace]

/-- **The heap is a total map whose words are zero at first.**  Let a machine have any history.

* The word at an address is the one that was written there last since the machine was at the
  beginning, or zero if there was none.
* The next step changes the words as it writes.  It writes if its node is a store or a read that
  does not fail, also if nothing follows the node; if the node fails, the heap is as it was.
* Two machines that differ only in stored cells that hold zero return the same, do the same to their
  streams and report the same, step by step, whatever streams they are given, and are equal behind
  every step but for the tables of their heaps, which have the same words.
* The cells that are reported are those that do not hold zero, in the order of their addresses, and
  so each is reported once. -/
theorem heap_cells_of_history {calls : List Call} {faults : List Fault}
    (history : History config program calls faults m) :
    (∀ address, m.heap.get address =
      lastWritten ((track config program calls).past.filterMap
        fun now => now.machine.write? program now.streams) address) ∧
    (∀ streams,
      let o := m.step config program streams
      o.machine.heap.get = afterWrite m.heap.get (m.write? program streams) ∧
      ∀ node, m.Executes program node →
        ((m.write? program streams).isSome ↔ node.instruction.Writes ∧
          ∃ move w, node.execute (m.workspace streams) = .ok move w) ∧
        (∀ cause w, node.execute (m.workspace streams) = .error cause w →
          o.machine.heap = m.heap) ∧
        ∀ w, node.execute (m.workspace streams) = .ok .next w → node.next = none →
          o.result = .error ⟨.prematureEnd, some ⟨node.instruction, node.index⟩⟩ ∧
            o.machine.heap = w.heap) ∧
    (∀ (n n' : Nat → Machine) (streams : Nat → Streams), IsRun config program n streams →
      IsRun config program n' streams → (n 0).Alike (n' 0) → ∀ k,
      let o := (n k).step config program (streams k)
      let o' := (n' k).step config program (streams k)
      o'.result = o.result ∧ o'.streams = o.streams ∧ o'.events = o.events ∧
        o'.machine = { o.machine with heap := o'.machine.heap } ∧
        o'.machine.heap.get = o.machine.heap.get) ∧
    (∀ streams cells, .heap cells ∈ (m.step config program streams).events ↔
      config.debugHeap = true ∧ (m.next? program).isSome ∧ cells = m.heap.nonzero) ∧
    ∀ h : Heap,
      (∀ address word, (address, word) ∈ h.nonzero ↔ h.get address = word ∧ word ≠ 0) ∧
      h.nonzero.Pairwise fun c d => c.1.toInt < d.1.toInt := by
  refine ⟨congrFun (get_eq_lastWritten history), fun streams => ⟨get_step config program m streams,
    fun node executes => ⟨executes.write?_isSome_iff streams, ?_, ?_⟩⟩, ?_,
    heap_mem_events config program m, fun h => ⟨fun _ _ => Heap.mem_nonzero, ?_⟩⟩
  · exact fun cause w failed => executes.heap_of_error failed config
  · intro w succeeded ended
    rw [executes.step_eq, succeeded]
    simp only [ended]
    exact ⟨rfl, rfl⟩
  · intro n n' streams run run' alike k
    obtain ⟨⟨heap, left, same⟩, result, streams_eq, events⟩ :=
      (run.alike run' alike k).step config program (streams k)
    refine ⟨result, streams_eq, events, ?_, ?_⟩
    · rw [left]
    · rw [left, Heap.alike_iff.mp same]
  · exact h.pairwise_nonzero.imp Int64.lt_iff_toInt_lt.mp

/-- A word is stored, another one behind it at the same address, and then the last node reads one to
an address below: the program ends prematurely, but has read. -/
theorem heap_cells_of_history_read :
    let is := [.number .push (-3), .number .push 8, .plain .store, .number .push (-3),
      .number .push 9, .plain .store, .number .push (-4), .plain (.read .number)]
    ∃ l m, link is = .ok l ∧
      History {} l.program [.run 9 ⟨some (.ofBytes [0x37]), none⟩]
        [⟨.prematureEnd, some ⟨.plain (.read .number), 7⟩⟩] m ∧
      m.heap.get (-3) = 9 ∧ m.heap.get (-4) = 7 ∧ m.heap.get 0 = 0 ∧
      ((-4, 7) ∈ m.heap.nonzero) := by
  intro is
  let l : Linking := ⟨⟨#[⟨0, .number .push (-3), some 1, none⟩, ⟨1, .number .push 8, some 2, none⟩,
    ⟨2, .plain .store, some 3, none⟩, ⟨3, .number .push (-3), some 4, none⟩,
    ⟨4, .number .push 9, some 5, none⟩, ⟨5, .plain .store, some 6, none⟩,
    ⟨6, .number .push (-4), some 7, none⟩, ⟨7, .plain (.read .number), none, none⟩]⟩, 0, 8⟩
  have linked : link is = .ok l := rfl
  have history : History {} l.program [.run 9 ⟨some (.ofBytes [0x37]), none⟩] _ _ :=
    .call (.run 9 ⟨some (.ofBytes [0x37]), none⟩) .new
  obtain ⟨last, -, -, -, listed⟩ := heap_cells_of_history history
  have read : ((start l.program).perform {} l.program (.run 9 ⟨some (.ofBytes [0x37]), none⟩)).1 =
      some ⟨.prematureEnd, some ⟨.plain (.read .number), 7⟩⟩ := by decide +kernel
  rw [read] at history
  have cell : ∀ address word, lastWritten ((track {} l.program
      [.run 9 ⟨some (.ofBytes [0x37]), none⟩]).past.filterMap
        fun now => now.machine.write? l.program now.streams) address = word → _ = word :=
    fun address word same => (last address).trans same
  have four := cell (-4) 7 (by decide +kernel)
  exact ⟨l, _, linked, history, cell (-3) 9 (by decide +kernel), four, cell 0 0 (by decide +kernel),
    ((listed _).1 _ _).mpr ⟨four, by decide⟩⟩

end Machine

end Whitespace
