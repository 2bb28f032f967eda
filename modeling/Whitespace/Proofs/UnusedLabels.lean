import Whitespace.Proofs.LinkingErrors
import Whitespace.Proofs.Renaming

/-!
# Labels that nothing refers to

A label definition that no call and no jump refers to may be put in or taken out: the nodes of the
linked program stay the same, but for the places that they name.  Let `a ++ b` be instructions and
`d` the definition of a label that they neither define nor refer to.  `shift` says where an
instruction of `a ++ b` ends up in `a ++ d :: b`.  It moves places, but no slots
(`slotAt_shift`), so what goes on behind a place and where a label leads is the same in both
(`nodeAt_shift`), and what is wrong with the one is wrong with the other (`exists_link_insert`).

## Main definitions

* `Linking.shift q place` — where an instruction ends up when another one is put in before `q`.
* `Naming.inserted q`, `Naming.removed q` — the places of a source into which an instruction has
  been put, or from which it has been taken.
-/

namespace Whitespace

namespace Linking

/-- Where an instruction ends up when another one is put in before a place. -/
def shift (q place : Nat) : Nat :=
  if place < q then place else place + 1

theorem shift_of_lt {q place : Nat} (before : place < q) : shift q place = place :=
  if_pos before

theorem shift_add (q count : Nat) : shift q (q + count) = q + count + 1 :=
  if_neg (Nat.not_lt.mpr (Nat.le_add_right q count))

theorem shift_ne (q place : Nat) : shift q place ≠ q := by
  rw [shift]
  split <;> omega

theorem shift_lt_shift {q first second : Nat} :
    shift q first < shift q second ↔ first < second := by
  rw [shift, shift]
  split <;> split <;> omega

/-- A place is that of the new instruction, or one where an old instruction has ended up. -/
theorem eq_or_exists_shift (q place : Nat) : place = q ∨ ∃ old, place = shift q old := by
  rcases Nat.lt_trichotomy place q with before | here | behind
  · exact .inr ⟨place, (shift_of_lt before).symm⟩
  · exact .inl here
  · obtain ⟨count, rfl⟩ := Nat.exists_eq_add_of_lt behind
    exact .inr ⟨q + count, (shift_add q count).symm⟩

/-! ## One more instruction -/

section Insertion

variable {a b : List Instruction} {d : Instruction} {place : Nat} {i : Instruction}

theorem getElem?_shift (a b : List Instruction) (d : Instruction) (place : Nat) :
    (a ++ d :: b)[shift a.length place]? = (a ++ b)[place]? := by
  by_cases before : place < a.length
  · rw [shift_of_lt before, List.getElem?_append_left before, List.getElem?_append_left before]
  · obtain ⟨count, rfl⟩ := Nat.exists_eq_add_of_le (Nat.le_of_not_lt before)
    rw [shift_add, Nat.add_assoc, List.getElem?_append_right (Nat.le_add_right _ _),
      List.getElem?_append_right (Nat.le_add_right _ _), Nat.add_sub_cancel_left,
      Nat.add_sub_cancel_left, List.getElem?_cons_succ]

theorem executableAt_shift :
    ExecutableAt (a ++ d :: b) (shift a.length place) i ↔ ExecutableAt (a ++ b) place i := by
  rw [ExecutableAt, ExecutableAt, getElem?_shift]

/-- No slot changes up to the new instruction. -/
theorem slotAt_insert_of_le (early : place ≤ a.length) :
    slotAt (a ++ d :: b) place = slotAt (a ++ b) place := by
  rw [slotAt, slotAt, List.take_append_of_le_length early, List.take_append_of_le_length early]

variable (skipped : d.isExecutable = false)

include skipped

theorem nodeCount_insert : nodeCount (a ++ d :: b) = nodeCount (a ++ b) := by
  simp [nodeCount_cons, skipped]

/-- Nor does one behind it. -/
theorem slotAt_insert_add (count : Nat) :
    slotAt (a ++ d :: b) (a.length + count + 1) = slotAt (a ++ b) (a.length + count) := by
  rw [slotAt, slotAt, Nat.add_assoc, List.take_length_add_append, List.take_length_add_append,
    List.take_succ_cons]
  exact nodeCount_insert skipped

/-- **Slots do not move** when an instruction that does nothing is put in. -/
theorem slotAt_shift (place : Nat) :
    slotAt (a ++ d :: b) (shift a.length place) = slotAt (a ++ b) place := by
  by_cases before : place < a.length
  · rw [shift_of_lt before, slotAt_insert_of_le (Nat.le_of_lt before)]
  · obtain ⟨count, rfl⟩ := Nat.exists_eq_add_of_le (Nat.le_of_not_lt before)
    rw [shift_add, slotAt_insert_add skipped]

theorem slotAt_shift_succ (place : Nat) :
    slotAt (a ++ d :: b) (shift a.length place + 1) = slotAt (a ++ b) (place + 1) := by
  by_cases before : place < a.length
  · rw [shift_of_lt before, slotAt_insert_of_le before]
  · obtain ⟨count, rfl⟩ := Nat.exists_eq_add_of_le (Nat.le_of_not_lt before)
    rw [shift_add, Nat.add_assoc a.length count 1, slotAt_insert_add skipped]

end Insertion

/-! ## One more label -/

section Label

variable {a b : List Instruction} {name other : Label} {place : Nat} {i : Instruction}

/-- Where the other labels are defined. -/
theorem definition?_insert (different : other ≠ name) :
    definition? (a ++ .label .define name :: b) other =
      (definition? (a ++ b) other).map (shift a.length) := by
  have later :
      definition? (.label .define name :: b) other = (definition? b other).map (· + 1) := by
    simp [definition?, List.findIdx?_cons, Instruction.defined?, Ne.symm different]
  rw [definition?_append, definition?_append, later]
  -- A definition in `a` stays where it is, and one in `b` moves by one place.
  cases found : definition? a other with
  | some place =>
    obtain ⟨i, here, -⟩ := defined?_of_definition? found
    have before : place < a.length := (List.getElem?_eq_some_iff.mp here).1
    simp [shift_of_lt before]
  | none =>
    have moved : ∀ count, count + 1 + a.length = shift a.length (count + a.length) := by
      intro count
      rw [Nat.add_comm count a.length, shift_add]
      omega
    simp [Function.comp_def, moved]

/-- Where a label leads, as a slot. -/
theorem map_slotAt_destination? (is : List Instruction) (name : Label) :
    (destination? is name).map (slotAt is) = (definition? is name).bind fun place =>
      if slotAt is (place + 1) < nodeCount is then some (slotAt is (place + 1)) else none := by
  rw [destination?, Option.map_bind]
  congr 1
  funext place
  exact map_slotAt_placeFrom is (place + 1)

theorem map_slotAt_destination?_insert (different : other ≠ name) :
    (destination? (a ++ .label .define name :: b) other).map
        (slotAt (a ++ .label .define name :: b)) =
      (destination? (a ++ b) other).map (slotAt (a ++ b)) := by
  rw [map_slotAt_destination?, map_slotAt_destination?, definition?_insert different,
    Option.bind_map, nodeCount_insert rfl]
  congr 1
  funext place
  simp only [Function.comp_apply, slotAt_shift_succ (d := .label .define name) rfl]

/-- An instruction does not name a label, if it does not refer to it. -/
theorem nodeAt_shift (unused : i.target? ≠ some name) :
    nodeAt (a ++ .label .define name :: b) (shift a.length place) i =
      { nodeAt (a ++ b) place i with index := shift a.length place } := by
  have next : (placeFrom (a ++ .label .define name :: b) (shift a.length place + 1)).map
        (slotAt (a ++ .label .define name :: b)) =
      (placeFrom (a ++ b) (place + 1)).map (slotAt (a ++ b)) := by
    rw [map_slotAt_placeFrom, map_slotAt_placeFrom, slotAt_shift_succ rfl, nodeCount_insert rfl]
  have branch : (i.target?.bind (destination? (a ++ .label .define name :: b))).map
        (slotAt (a ++ .label .define name :: b)) =
      (i.target?.bind (destination? (a ++ b))).map (slotAt (a ++ b)) := by
    cases refers : i.target? with
    | none => rfl
    | some other =>
      have different : other ≠ name := fun same => unused (refers.trans (congrArg some same))
      exact map_slotAt_destination?_insert different
  rw [nodeAt, nodeAt, next, branch]

/-! ## What is wrong -/

theorem definesAt_shift :
    DefinesAt (a ++ .label .define name :: b) (shift a.length place) other ↔
      DefinesAt (a ++ b) place other := by
  rw [DefinesAt, DefinesAt, getElem?_shift]

theorem definesAt_insert : DefinesAt (a ++ .label .define name :: b) a.length name := by
  simp [DefinesAt]

/-- The new definition does not make one that leads somewhere lead nowhere. -/
theorem leadsNowhere_shift :
    LeadsNowhere (a ++ .label .define name :: b) (shift a.length place) other ↔
      LeadsNowhere (a ++ b) place other := by
  by_cases here : DefinesAt (a ++ b) place other
  · rw [leadsNowhere_iff here, leadsNowhere_iff (definesAt_shift.mpr here), slotAt_shift rfl,
      nodeCount_insert rfl]
  · exact ⟨fun leads => absurd (definesAt_shift.mp leads.1) here, fun leads => absurd leads.1 here⟩

/-- The new definition is no call and no jump. -/
theorem not_dangling_insert : ¬Dangling (a ++ .label .define name :: b) a.length other := by
  rintro ⟨⟨op, call, here⟩, -⟩
  have same := definesAt_insert.symm.trans here
  simp only [Option.some.injEq, Instruction.label.injEq] at same
  exact call same.1.symm

/-- The new definition is none that a call or a jump has missed. -/
theorem dangling_shift (unused : ∀ i ∈ a ++ b, i.target? ≠ some name) :
    Dangling (a ++ .label .define name :: b) (shift a.length place) other ↔
      Dangling (a ++ b) place other := by
  rw [Dangling, Dangling, getElem?_shift]
  refine and_congr_right fun refers => ?_
  constructor
  · intro unknown old there
    exact unknown (shift a.length old) (definesAt_shift.mpr there)
  · intro unknown there defined
    obtain rfl | ⟨old, rfl⟩ := eq_or_exists_shift a.length there
    · obtain ⟨op, call, here⟩ := refers
      rw [defined.unique definesAt_insert] at here
      exact unused _ (List.mem_of_getElem? here)
        (Instruction.target?_eq_some_iff.mpr ⟨op, call, rfl⟩)
    · exact unknown old (definesAt_shift.mp defined)

variable (fresh : ∀ place, ¬DefinesAt (a ++ b) place name)

include fresh

/-- The new definition does not make another one a repetition. -/
theorem repeats_shift :
    Repeats (a ++ .label .define name :: b) (shift a.length place) other ↔
      Repeats (a ++ b) place other := by
  constructor
  · rintro ⟨here, earlier, before, there⟩
    have here := definesAt_shift.mp here
    obtain rfl | ⟨old, rfl⟩ := eq_or_exists_shift a.length earlier
    · rw [there.unique definesAt_insert] at here
      exact absurd here (fresh place)
    · exact ⟨here, old, shift_lt_shift.mp before, definesAt_shift.mp there⟩
  · rintro ⟨here, earlier, before, there⟩
    exact ⟨definesAt_shift.mpr here, shift a.length earlier, shift_lt_shift.mpr before,
      definesAt_shift.mpr there⟩

theorem faulty_shift :
    Faulty (a ++ .label .define name :: b) (shift a.length place) ↔ Faulty (a ++ b) place := by
  simp only [Faulty, repeats_shift fresh, leadsNowhere_shift]

/-- Nothing is wrong with the new definition, if something is done behind it. -/
theorem not_faulty_insert (room : slotAt (a ++ b) a.length < nodeCount (a ++ b)) :
    ¬Faulty (a ++ .label .define name :: b) a.length := by
  rintro ⟨other, repeated | leads⟩
  · obtain ⟨here, earlier, before, there⟩ := repeated
    obtain rfl := here.unique definesAt_insert
    obtain rfl | ⟨old, rfl⟩ := eq_or_exists_shift a.length earlier
    · exact Nat.lt_irrefl _ before
    · exact fresh old (definesAt_shift.mp there)
  · have ended := (leadsNowhere_iff leads.1).mp leads
    rw [slotAt_insert_of_le (Nat.le_refl _), nodeCount_insert rfl] at ended
    omega

/-- **Both or neither can be linked**, if something is done behind the new label. -/
theorem exists_link_insert (unused : ∀ i ∈ a ++ b, i.target? ≠ some name)
    (room : slotAt (a ++ b) a.length < nodeCount (a ++ b)) :
    (∃ l, link (a ++ .label .define name :: b) = .ok l) ↔ ∃ l, link (a ++ b) = .ok l := by
  have nonempty : a ++ b ≠ [] := by
    intro nothing
    rw [nothing] at room
    cases room
  have faults : (∀ place, ¬Faulty (a ++ .label .define name :: b) place) ↔
      ∀ place, ¬Faulty (a ++ b) place := by
    constructor
    · intro sound old faulty
      exact sound _ ((faulty_shift fresh).mpr faulty)
    · intro sound place faulty
      obtain rfl | ⟨old, rfl⟩ := eq_or_exists_shift a.length place
      · exact not_faulty_insert fresh room faulty
      · exact sound old ((faulty_shift fresh).mp faulty)
  have dangles : (∀ place, ¬∃ other, Dangling (a ++ .label .define name :: b) place other) ↔
      ∀ place, ¬∃ other, Dangling (a ++ b) place other := by
    constructor
    · rintro resolved old ⟨other, dangling⟩
      exact resolved _ ⟨other, (dangling_shift unused).mpr dangling⟩
    · rintro resolved place ⟨other, dangling⟩
      obtain rfl | ⟨old, rfl⟩ := eq_or_exists_shift a.length place
      · exact not_dangling_insert dangling
      · exact resolved old ⟨other, (dangling_shift unused).mp dangling⟩
  rw [exists_link_iff, exists_link_iff, faults, dangles]
  simp [nonempty]

end Label

end Linking

/-! ## Linked programs -/

/-- The places of a source into which an instruction has been put before a place. -/
def Naming.inserted (q : Nat) : Naming where
  place := Linking.shift q

/-- The places of a source from which the instruction at a place has been taken. -/
def Naming.removed (q : Nat) : Naming where
  place := fun place => if q < place then place - 1 else place

/-- Taking an instruction out again leaves what was there before. -/
theorem Naming.removed_inserted (q : Nat) (p : Program) :
    (Naming.removed q).program ((Naming.inserted q).program p) = p := by
  apply Naming.program_program
  rintro ⟨place, i, next, branch⟩
  have back : (Naming.removed q).place ((Naming.inserted q).place place) = place := by
    simp only [Naming.removed, Naming.inserted, Linking.shift]
    split <;> split <;> omega
  simp [Naming.node, back, Naming.instruction_id (r := Naming.removed q) rfl,
    Naming.instruction_id (r := Naming.inserted q) rfl]

namespace Linking

variable {a b : List Instruction} {name : Label}

/-- **The nodes stay the same**, but for the places that they name. -/
theorem program_insert {l l' : Linking} (h : link (a ++ b) = .ok l)
    (h' : link (a ++ .label .define name :: b) = .ok l')
    (unused : ∀ i ∈ a ++ b, i.target? ≠ some name) :
    l'.program = (Naming.inserted a.length).program l.program := by
  refine congrArg Program.mk (Array.ext_getElem? fun slot => ?_)
  change l'.program.node? slot = ((Naming.inserted a.length).program l.program).node? slot
  rw [Naming.node?_program]
  by_cases bound : slot < nodeCount (a ++ b)
  · obtain ⟨place, i, executable, rfl⟩ := exists_place (a ++ b) bound
    have moved := node?_slotAt h' (executableAt_shift.mpr executable)
    rw [slotAt_shift rfl, nodeAt_shift (unused i (List.mem_of_getElem? executable.1))] at moved
    rw [moved, node?_slotAt h executable, Option.map_some, Naming.node,
      Naming.instruction_id rfl]
    rfl
  · have size := size_of_link h
    have size' := size_of_link h'
    rw [nodeCount_insert rfl] at size'
    rw [Program.node?, Program.node?, Array.getElem?_eq_none, Array.getElem?_eq_none,
      Option.map_none]
    · exact Nat.le_trans (Nat.le_of_eq size) (Nat.le_of_not_lt bound)
    · exact Nat.le_trans (Nat.le_of_eq size') (Nat.le_of_not_lt bound)

/-- In what can be linked, nothing refers to a label that is not defined. -/
theorem unused_of_link {is : List Instruction} {l : Linking} (h : link is = .ok l)
    (fresh : ∀ place, ¬DefinesAt is place name) (i : Instruction) (member : i ∈ is) :
    i.target? ≠ some name := by
  intro refers
  obtain ⟨place, here⟩ := List.mem_iff_getElem?.mp member
  obtain ⟨op, call, rfl⟩ := Instruction.target?_eq_some_iff.mp refers
  obtain ⟨-, -, resolved⟩ := exists_link_iff.mp ⟨l, h⟩
  exact resolved place ⟨name, ⟨op, call, here⟩, fresh⟩

/-- In what can be linked, a label is not defined again. -/
theorem fresh_of_link {l : Linking} (h : link (a ++ .label .define name :: b) = .ok l)
    (place : Nat) : ¬DefinesAt (a ++ b) place name := by
  intro here
  have same := definition_unique (distinct_of_link h) (definesAt_shift.mpr here) definesAt_insert
  exact shift_ne a.length place same

/-- In what can be linked, something is done behind a label. -/
theorem room_of_link {l : Linking} (h : link (a ++ .label .define name :: b) = .ok l) :
    slotAt (a ++ b) a.length < nodeCount (a ++ b) := by
  obtain ⟨-, sound, -⟩ := exists_link_iff.mp ⟨l, h⟩
  have leads : ¬LeadsNowhere (a ++ .label .define name :: b) a.length name :=
    fun leads => sound a.length ⟨name, .inr leads⟩
  rw [leadsNowhere_iff definesAt_insert, slotAt_insert_of_le (Nat.le_refl _),
    nodeCount_insert rfl] at leads
  exact Nat.lt_of_le_of_ne (slotAt_le _ _) leads

end Linking

open Linking

/-- Putting an instruction in between two lists. -/
theorem insertIdx_append (a b : List Instruction) (i : Instruction) :
    (a ++ b).insertIdx a.length i = a ++ i :: b := by
  induction a with
  | nil => rfl
  | cons first a ih =>
    rw [List.cons_append, List.length_cons, List.insertIdx_succ_cons, ih]
    rfl

/-- **Labels that nothing refers to are inert.**  If instructions can be linked, and a label that
they do not define is defined before any place up to the last at which something is done, they can
still be linked.  If a label that nothing refers to is no longer defined, they can still be linked.
In both cases the program is entered at the same slot and has the same nodes, but for the places
that they name; and the programs run alike, but for the places that are told. -/
theorem unused_label_of_link {is : List Instruction} {l : Linking} (h : link is = .ok l) (q : Nat)
    (name : Label) :
    ((∃ last i, q ≤ last ∧ ExecutableAt is last i) → (∀ place, ¬DefinesAt is place name) →
      ∃ l', link (is.insertIdx q (.label .define name)) = .ok l' ∧
        l'.program.entry = l.program.entry ∧
        l'.program = (Naming.inserted q).program l.program ∧
        (Naming.inserted q).RunsAlike l.program l'.program) ∧
    (DefinesAt is q name → (∀ i ∈ is, i.target? ≠ some name) →
      ∃ l', link (is.eraseIdx q) = .ok l' ∧
        l'.program.entry = l.program.entry ∧
        l'.program = (Naming.removed q).program l.program ∧
        (Naming.removed q).RunsAlike l.program l'.program) := by
  constructor
  · rintro ⟨last, i, before, executable⟩ fresh
    have unused := unused_of_link h fresh
    have room : slotAt is q < nodeCount is :=
      Nat.lt_of_le_of_lt (slotAt_mono is before) executable.slotAt_lt
    have bound : q ≤ is.length :=
      Nat.le_of_lt (Nat.lt_of_le_of_lt before (List.getElem?_eq_some_iff.mp executable.1).1)
    obtain ⟨a, b, rfl, rfl⟩ : ∃ a b, is = a ++ b ∧ q = a.length :=
      ⟨is.take q, is.drop q, (List.take_append_drop q is).symm, (List.length_take_of_le bound).symm⟩
    obtain ⟨l', linked⟩ := (exists_link_insert fresh unused room).mpr ⟨l, h⟩
    have same := program_insert h linked unused
    rw [insertIdx_append]
    refine ⟨l', linked, rfl, same, ?_⟩
    rw [same]
    exact Naming.runsAlike _ _
  · intro here unused
    obtain ⟨bound, there⟩ := List.getElem?_eq_some_iff.mp here
    obtain ⟨a, b, rfl, rfl⟩ : ∃ a b, is = a ++ .label .define name :: b ∧ q = a.length := by
      refine ⟨is.take q, is.drop (q + 1), ?_, (List.length_take_of_le (Nat.le_of_lt bound)).symm⟩
      rw [← there, ← List.drop_eq_getElem_cons bound, List.take_append_drop]
    have unused : ∀ i ∈ a ++ b, i.target? ≠ some name := by
      intro i member
      apply unused
      simp only [List.mem_append, List.mem_cons] at member ⊢
      tauto
    obtain ⟨l', linked⟩ :=
      (exists_link_insert (fresh_of_link h) unused (room_of_link h)).mp ⟨l, h⟩
    have same : l'.program = (Naming.removed a.length).program l.program := by
      rw [program_insert linked h unused, Naming.removed_inserted]
    have erased : (a ++ .label .define name :: b).eraseIdx a.length = a ++ b := by
      rw [← insertIdx_append, List.eraseIdx_insertIdx_self]
    rw [erased]
    refine ⟨l', linked, rfl, same, ?_⟩
    rw [same]
    exact Naming.runsAlike _ _

/-- One more label between a label and the stop behind it, and one label less at the beginning. -/
theorem unused_label_of_link_jump :
    let is : List Instruction :=
      [.label .define ⟨['b']⟩, .label .jump ⟨['a']⟩, .label .define ⟨['a']⟩, .plain .stop]
    ∃ l, link is = .ok l ∧ l.program.nodes.toList.map Node.index = [1, 3] ∧
      (∃ l', link (is.insertIdx 3 (.label .define ⟨['c']⟩)) = .ok l' ∧
        l'.program.nodes.toList.map Node.index = [1, 4]) ∧
      ∃ l', link (is.eraseIdx 0) = .ok l' ∧ l'.program.nodes.toList.map Node.index = [0, 2] := by
  intro is
  let l : Linking := ⟨⟨#[⟨1, .label .jump ⟨['a']⟩, some 1, some 1⟩, ⟨3, .plain .stop, none, none⟩]⟩,
    2, 4⟩
  have linked : link is = .ok l := rfl
  have fresh : ∀ place, ¬DefinesAt is place ⟨['c']⟩ := by
    intro place here
    have member := List.mem_of_getElem? here
    simp [is] at member
  have unused : ∀ i ∈ is, i.target? ≠ some ⟨['b']⟩ := by simp [is, Instruction.target?]
  obtain ⟨l₁, linked₁, -, same₁, -⟩ := (unused_label_of_link linked 3 ⟨['c']⟩).1
    ⟨3, .plain .stop, Nat.le_refl 3, rfl, rfl⟩ fresh
  obtain ⟨l₂, linked₂, -, same₂, -⟩ := (unused_label_of_link linked 0 ⟨['b']⟩).2 rfl unused
  refine ⟨l, linked, rfl, ⟨l₁, linked₁, ?_⟩, l₂, linked₂, ?_⟩
  · simp [same₁, l, Naming.program, Naming.node, Naming.inserted, shift]
  · simp [same₂, l, Naming.program, Naming.node, Naming.removed]

end Whitespace
