import Whitespace.Linking

/-!
# Places of a source and slots of a program

A *place* is a position among the instructions of a source, label definitions counted; a *slot* is a
position among the nodes of the linked program, which leaves them out.  This module speaks about
places alone: where execution goes on from a place, where a label is defined, where a jump to it
leads.  Nothing here looks at how a program is linked.

## Main definitions

* `placeFrom is start` — the first place from `start` on whose instruction does something.
* `definition? is name` — the place where a label is defined first.
* `destination? is name` — the place where a jump to a label leads.
* `slotAt is place` — how many nodes stand before a place.

Every slot is that of the place of an executable instruction (`exists_place`), and `slotAt` does not
change on the way to the place where execution goes on (`slotAt_of_placeFrom`).
-/

namespace Whitespace

namespace Linking

/-- Some instruction that does something stands at the place. -/
def ExecutableAt (is : List Instruction) (place : Nat) (i : Instruction) : Prop :=
  is[place]? = some i ∧ i.isExecutable = true

/-- The first place from `start` on at which an instruction does something. -/
def placeFrom (is : List Instruction) (start : Nat) : Option Nat :=
  ((is.drop start).findIdx? Instruction.isExecutable).map (start + ·)

/-- The first place at which a label is defined. -/
def definition? (is : List Instruction) (name : Label) : Option Nat :=
  is.findIdx? fun i => decide (i.defined? = some name)

/-- The place where a call or a jump to a label leads: the first behind its definition at which an
instruction does something. -/
def destination? (is : List Instruction) (name : Label) : Option Nat :=
  (definition? is name).bind fun place => placeFrom is (place + 1)

/-- How many nodes stand before a place; the slot of the node at an executable place. -/
def slotAt (is : List Instruction) (place : Nat) : Nat :=
  nodeCount (is.take place)

/-! ## Counting nodes -/

@[simp] theorem nodeCount_nil : nodeCount [] = 0 := rfl

@[simp] theorem nodeCount_append (a b : List Instruction) :
    nodeCount (a ++ b) = nodeCount a + nodeCount b := by
  simp [nodeCount]

theorem nodeCount_cons (i : Instruction) (is : List Instruction) :
    nodeCount (i :: is) = (if i.isExecutable then 1 else 0) + nodeCount is := by
  simp only [nodeCount, List.countP_cons]
  omega

@[simp] theorem slotAt_zero (is : List Instruction) : slotAt is 0 = 0 := rfl

theorem slotAt_length (is : List Instruction) : slotAt is is.length = nodeCount is := by
  simp [slotAt]

/-- The nodes before a later place are those before an earlier one and those between. -/
theorem slotAt_add (is : List Instruction) (place count : Nat) :
    slotAt is (place + count) = slotAt is place + nodeCount ((is.drop place).take count) := by
  rw [slotAt, List.take_add, nodeCount_append, slotAt]

theorem slotAt_mono (is : List Instruction) {a b : Nat} (h : a ≤ b) :
    slotAt is a ≤ slotAt is b := by
  obtain ⟨count, rfl⟩ := Nat.le.dest h
  rw [slotAt_add]
  omega

theorem slotAt_le (is : List Instruction) (place : Nat) : slotAt is place ≤ nodeCount is := by
  have split : nodeCount (is.take place ++ is.drop place) = nodeCount is := by
    rw [List.take_append_drop]
  rw [nodeCount_append] at split
  exact Nat.le.intro split

theorem slotAt_succ {is : List Instruction} {place : Nat} {i : Instruction}
    (h : is[place]? = some i) :
    slotAt is (place + 1) = slotAt is place + (if i.isExecutable then 1 else 0) := by
  have one : (is.drop place).take 1 = [i] := by
    obtain ⟨bound, rfl⟩ := List.getElem?_eq_some_iff.mp h
    rw [List.drop_eq_getElem_cons bound]
    rfl
  rw [slotAt_add, one, nodeCount_cons, nodeCount_nil, Nat.add_zero]

theorem ExecutableAt.slotAt_succ {is : List Instruction} {place : Nat} {i : Instruction}
    (h : ExecutableAt is place i) : slotAt is (place + 1) = slotAt is place + 1 := by
  rw [Linking.slotAt_succ h.1, h.2, if_pos rfl]

theorem ExecutableAt.slotAt_lt {is : List Instruction} {place : Nat} {i : Instruction}
    (h : ExecutableAt is place i) : slotAt is place < nodeCount is := by
  have := slotAt_le is (place + 1)
  rw [h.slotAt_succ] at this
  omega

/-- Every slot is that of a place at which something is done. -/
theorem exists_place (is : List Instruction) {slot : Nat} (h : slot < nodeCount is) :
    ∃ place i, ExecutableAt is place i ∧ slotAt is place = slot := by
  induction is generalizing slot with
  | nil => simp at h
  | cons i is ih =>
    rw [nodeCount_cons] at h
    by_cases executable : i.isExecutable = true
    · rw [if_pos executable] at h
      cases slot with
      | zero => exact ⟨0, i, ⟨rfl, executable⟩, rfl⟩
      | succ slot =>
        obtain ⟨place, j, at_place, rfl⟩ := ih (show slot < nodeCount is by omega)
        refine ⟨place + 1, j, at_place, ?_⟩
        rw [slotAt, List.take_succ_cons, nodeCount_cons, if_pos executable, slotAt]
        omega
    · rw [if_neg executable, Nat.zero_add] at h
      obtain ⟨place, j, at_place, rfl⟩ := ih h
      refine ⟨place + 1, j, at_place, ?_⟩
      rw [slotAt, List.take_succ_cons, nodeCount_cons, if_neg executable, slotAt, Nat.zero_add]

/-! ## Where execution goes on -/

/-- What `placeFrom` finds: nothing is done between the start and the place it gives. -/
theorem placeFrom_eq_some {is : List Instruction} {start place : Nat}
    (h : placeFrom is start = some place) :
    start ≤ place ∧ (∃ i, ExecutableAt is place i) ∧ slotAt is place = slotAt is start := by
  obtain ⟨count, found, rfl⟩ := Option.map_eq_some_iff.mp h
  obtain ⟨bound, executable, skipped⟩ := List.findIdx?_eq_some_iff_getElem.mp found
  refine ⟨by omega, ⟨(is.drop start)[count], ?_, executable⟩, ?_⟩
  · rw [← List.getElem?_drop, List.getElem?_eq_getElem bound]
  · rw [slotAt_add]
    suffices nodeCount ((is.drop start).take count) = 0 by omega
    refine List.countP_eq_zero.mpr fun i member => ?_
    obtain ⟨k, small, rfl⟩ := List.mem_take_iff_getElem.mp member
    exact skipped k (by omega)

theorem slotAt_of_placeFrom {is : List Instruction} {start place : Nat}
    (h : placeFrom is start = some place) : slotAt is place = slotAt is start :=
  (placeFrom_eq_some h).2.2

/-- There is no such place exactly if all nodes stand before the start. -/
theorem placeFrom_eq_none {is : List Instruction} {start : Nat} :
    placeFrom is start = none ↔ slotAt is start = nodeCount is := by
  have split : slotAt is start + nodeCount (is.drop start) = nodeCount is := by
    rw [slotAt, ← nodeCount_append, List.take_append_drop]
  rw [placeFrom, Option.map_eq_none_iff, List.findIdx?_eq_none_iff]
  constructor
  · intro none_left
    have : nodeCount (is.drop start) = 0 :=
      List.countP_eq_zero.mpr fun i member => by simp [none_left i member]
    omega
  · intro all_before i member
    have : nodeCount (is.drop start) = 0 := by omega
    simpa using List.countP_eq_zero.mp this i member

/-- There is such a place exactly if some node does not stand before the start. -/
theorem exists_placeFrom {is : List Instruction} {start : Nat}
    (h : slotAt is start < nodeCount is) : ∃ place, placeFrom is start = some place := by
  rcases found : placeFrom is start with _ | place
  · have := placeFrom_eq_none.mp found
    omega
  · exact ⟨place, rfl⟩

/-- The slot behind a place, where there is one, is that of the place where execution goes on. -/
theorem map_slotAt_placeFrom (is : List Instruction) (start : Nat) :
    (placeFrom is start).map (slotAt is) =
      if slotAt is start < nodeCount is then some (slotAt is start) else none := by
  split
  · next h =>
    obtain ⟨place, found⟩ := exists_placeFrom h
    rw [found, Option.map_some, slotAt_of_placeFrom found]
  · next h =>
    have all_before : slotAt is start = nodeCount is := by
      have := slotAt_le is start
      omega
    rw [placeFrom_eq_none.mpr all_before, Option.map_none]

/-! ## Where labels are defined -/

theorem definition?_append (a b : List Instruction) (name : Label) :
    definition? (a ++ b) name =
      (definition? a name).or ((definition? b name).map (· + a.length)) := by
  simp [definition?, List.findIdx?_append]

/-- An instruction that defines no other label does not change where a label is defined. -/
theorem definition?_append_of_ne {before : List Instruction} {i : Instruction} {name : Label}
    (h : i.defined? ≠ some name) : definition? (before ++ [i]) name = definition? before name := by
  rw [definition?_append]
  simp [definition?, h]

/-- What stands at the place where a label is defined. -/
theorem defined?_of_definition? {is : List Instruction} {name : Label} {place : Nat}
    (h : definition? is name = some place) :
    ∃ i, is[place]? = some i ∧ i.defined? = some name := by
  obtain ⟨bound, defines, -⟩ := List.findIdx?_eq_some_iff_getElem.mp h
  exact ⟨is[place], List.getElem?_eq_getElem bound, of_decide_eq_true defines⟩

end Linking

end Whitespace
