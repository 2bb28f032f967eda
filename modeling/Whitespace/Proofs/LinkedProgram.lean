import Whitespace.Proofs.Place

/-!
# What linking produces

Linking goes over the instructions twice, first for the labels and then for the nodes, and counts
slots as it goes.  Here both passes are described in terms of places, without counting: the label
table gives the slot behind a definition (`collectLabels_spec`), and the program has, at the slot of
every place at which something is done, the node `nodeAt` of that place (`node?_of_link`).
-/

namespace Whitespace

namespace Linking

variable {is before rest : List Instruction}

/-! ## The label table -/

/-- A label table knows the labels that some of the instructions define: it gives the slot behind
each definition, and there is a node in that slot. -/
structure Covers (is : List Instruction) (table : LabelTable) (before : List Instruction) :
    Prop where
  lookup : ∀ name, table.lookup name = (definition? before name).map (slotAt is)
  leads : ∀ name place, definition? before name = some place →
    ∃ target, placeFrom is (place + 1) = some target

theorem covers_nil (is : List Instruction) : Covers is [] [] :=
  ⟨fun _ => rfl, fun _ _ found => nomatch found⟩

theorem Covers.undefined {table : LabelTable} {label : Label} (known : Covers is table before)
    (fresh : table.lookup label = none) : definition? before label = none :=
  Option.map_eq_none_iff.mp ((known.lookup label).symm.trans fresh)

/-- One more instruction that defines no label. -/
theorem Covers.skip {table : LabelTable} {i : Instruction} (known : Covers is table before)
    (h : i.defined? = none) : Covers is table (before ++ [i]) := by
  have same : ∀ name, definition? (before ++ [i]) name = definition? before name :=
    fun name => definition?_append_of_ne (by simp [h])
  refine ⟨fun name => ?_, fun name place found => ?_⟩
  · rw [same]
    exact known.lookup name
  · rw [same] at found
    exact known.leads name place found

/-- One more definition, of a label that was not defined before. -/
theorem Covers.define {table : LabelTable} {i : Instruction} {label : Label} {target : Nat}
    (known : Covers is table before) (h : i.defined? = some label)
    (fresh : table.lookup label = none) (leads : placeFrom is (before.length + 1) = some target) :
    Covers is ((label, slotAt is before.length) :: table) (before ++ [i]) := by
  have here : definition? (before ++ [i]) label = some before.length := by
    rw [definition?_append, known.undefined fresh]
    simp [definition?, h]
  have elsewhere : ∀ name, label ≠ name →
      definition? (before ++ [i]) name = definition? before name :=
    fun name other => definition?_append_of_ne (by simpa [h] using other)
  refine ⟨fun name => ?_, fun name place found => ?_⟩
  · rw [List.lookup_cons]
    by_cases same : label = name
    · subst same
      simp [here]
    · rw [beq_false_of_ne (Ne.symm same), elsewhere name same]
      exact known.lookup name
  · by_cases same : label = name
    · subst same
      obtain rfl : before.length = place := by simpa [here] using found
      exact ⟨target, leads⟩
    · rw [elsewhere name same] at found
      exact known.leads name place found

/-- **The pass over the labels** leaves a table that knows all definitions. -/
theorem collectLabels_spec {table table' : LabelTable} (split : is = before ++ rest)
    (known : Covers is table before)
    (h : collectLabels (nodeCount is) before.length (slotAt is before.length) table rest =
      .ok table') :
    Covers is table' is := by
  induction rest generalizing before table with
  | nil =>
    obtain rfl : is = before := by simpa using split
    obtain rfl : table = table' := by simpa [collectLabels] using h
    exact known
  | cons i rest ih =>
    have here : is[before.length]? = some i := by simp [split]
    have split' : is = (before ++ [i]) ++ rest := by simp [split]
    have length : (before ++ [i]).length = before.length + 1 := by simp
    have slot := slotAt_succ here
    rw [collectLabels] at h
    rcases defined : i.defined? with _ | label
    · have executable : i.isExecutable = true := by simp [Instruction.isExecutable, defined]
      rw [executable, if_pos rfl] at slot
      simp only [defined] at h
      exact ih split' (known.skip defined) (by rwa [length, slot])
    · have skipped : i.isExecutable = false := by simp [Instruction.isExecutable, defined]
      rw [skipped, if_neg Bool.false_ne_true, Nat.add_zero] at slot
      simp only [defined] at h
      split at h
      · cases h
      · next fresh =>
        split at h
        · cases h
        · next some_left =>
          have fresh : table.lookup label = none := Option.not_isSome_iff_eq_none.mp fresh
          have bound := slotAt_le is before.length
          have room : slotAt is (before.length + 1) < nodeCount is := by omega
          obtain ⟨target, leads⟩ := exists_placeFrom room
          exact ih split' (known.define defined fresh leads) (by rwa [length, slot])

/-! ## The nodes -/

/-- The node that linking makes of the instruction at a place. -/
def nodeAt (is : List Instruction) (place : Nat) (i : Instruction) : Node where
  index := place
  instruction := i
  next := (placeFrom is (place + 1)).map (slotAt is)
  branch := (i.target?.bind (destination? is)).map (slotAt is)

/-- An instruction refers to no label, or to one that leads somewhere. -/
def Resolved (is : List Instruction) (i : Instruction) : Prop :=
  ∀ name, i.target? = some name → ∃ target, destination? is name = some target

/-- The destination of a label that is known lies in the slot that the table gives. -/
theorem Covers.destination {table : LabelTable} {name : Label} {slot : Nat}
    (known : Covers is table is) (found : table.lookup name = some slot) :
    ∃ target, destination? is name = some target ∧ slotAt is target = slot := by
  rw [known.lookup name] at found
  obtain ⟨place, defined, rfl⟩ := Option.map_eq_some_iff.mp found
  obtain ⟨target, leads⟩ := known.leads name place defined
  obtain ⟨i, here, defines⟩ := defined?_of_definition? defined
  have skipped : i.isExecutable = false := by simp [Instruction.isExecutable, defines]
  refine ⟨target, by rw [destination?, defined, Option.bind_some, leads], ?_⟩
  rw [slotAt_of_placeFrom leads, slotAt_succ here, skipped, if_neg Bool.false_ne_true,
    Nat.add_zero]

theorem branch_spec {table : LabelTable} {index : Nat} {i : Instruction} {slot : Option Nat}
    (known : Covers is table is) (h : branch table index i = .ok slot) :
    slot = (nodeAt is index i).branch ∧ Resolved is i := by
  rw [branch] at h
  rcases target : i.target? with _ | name
  · simp only [target] at h
    refine ⟨?_, by simp [Resolved, target]⟩
    rw [← Except.ok.inj h, nodeAt, target]
    rfl
  · simp only [target] at h
    split at h
    · next found hfound =>
      obtain ⟨place, leads, same⟩ := known.destination hfound
      refine ⟨?_, ?_⟩
      · rw [← Except.ok.inj h, nodeAt, target, Option.bind_some, leads, Option.map_some, same]
      · intro other refers
        obtain rfl : name = other := by simpa [target] using refers
        exact ⟨place, leads⟩
    · cases h

/-- The nodes of the first instructions: each stands in its slot and refers to no unknown label. -/
structure Built (is : List Instruction) (nodes : Array Node) (before : List Instruction) :
    Prop where
  size : nodes.size = slotAt is before.length
  node : ∀ place i, place < before.length → ExecutableAt is place i →
    nodes[slotAt is place]? = some (nodeAt is place i) ∧ Resolved is i

theorem built_nil (is : List Instruction) : Built is #[] [] :=
  ⟨rfl, fun _ _ bound => nomatch bound⟩

/-- One more label definition. -/
theorem Built.skip {nodes : Array Node} {i : Instruction} (built : Built is nodes before)
    (here : is[before.length]? = some i) (skipped : i.isExecutable = false) :
    Built is nodes (before ++ [i]) := by
  refine ⟨?_, fun place j bound executable => ?_⟩
  · rw [List.length_append, List.length_singleton, slotAt_succ here, skipped,
      if_neg Bool.false_ne_true, Nat.add_zero]
    exact built.size
  · rw [List.length_append, List.length_singleton] at bound
    rcases Nat.lt_succ_iff_lt_or_eq.mp bound with earlier | rfl
    · exact built.node place j earlier executable
    · obtain rfl : i = j := Option.some.inj (here.symm.trans executable.1)
      exact absurd executable.2 (by simp [skipped])

/-- One more node. -/
theorem Built.push {nodes : Array Node} {i : Instruction} (built : Built is nodes before)
    (here : ExecutableAt is before.length i) (resolved : Resolved is i) :
    Built is (nodes.push (nodeAt is before.length i)) (before ++ [i]) := by
  refine ⟨?_, fun place j bound executable => ?_⟩
  · rw [List.length_append, List.length_singleton, here.slotAt_succ, Array.size_push, built.size]
  · rw [List.length_append, List.length_singleton] at bound
    rcases Nat.lt_succ_iff_lt_or_eq.mp bound with earlier | rfl
    · obtain ⟨stands, known⟩ := built.node place j earlier executable
      obtain ⟨small, -⟩ := Array.getElem?_eq_some_iff.mp stands
      refine ⟨?_, known⟩
      rw [Array.getElem?_push_lt small, ← Array.getElem?_eq_getElem small]
      exact stands
    · obtain rfl : i = j := Option.some.inj (here.1.symm.trans executable.1)
      exact ⟨by rw [← built.size, Array.getElem?_push_size], resolved⟩

/-- **The pass over the nodes** builds them all. -/
theorem addNodes_spec {table : LabelTable} {nodes nodes' : Array Node}
    (split : is = before ++ rest) (known : Covers is table is) (built : Built is nodes before)
    (h : addNodes (nodeCount is) table before.length nodes rest = .ok nodes') :
    Built is nodes' is := by
  induction rest generalizing before nodes with
  | nil =>
    obtain rfl : is = before := by simpa using split
    obtain rfl : nodes = nodes' := by simpa [addNodes] using h
    exact built
  | cons i rest ih =>
    have here : is[before.length]? = some i := by simp [split]
    have split' : is = (before ++ [i]) ++ rest := by simp [split]
    have length : (before ++ [i]).length = before.length + 1 := by simp
    rw [addNodes] at h
    split at h
    · next executable =>
      have at_place : ExecutableAt is before.length i := ⟨here, executable⟩
      split at h
      · cases h
      · next slot hslot =>
        obtain ⟨rfl, resolved⟩ := branch_spec known hslot
        have follows : (nodeAt is before.length i).next =
            if nodes.size + 1 < nodeCount is then some (nodes.size + 1) else none := by
          rw [nodeAt, map_slotAt_placeFrom, at_place.slotAt_succ, built.size]
        refine ih split' (built.push at_place resolved) ?_
        dsimp only at h
        rw [← follows] at h
        rw [length]
        exact h
    · next skipped =>
      refine ih split' (built.skip here (Bool.eq_false_iff.mpr skipped)) ?_
      rwa [length]

/-! ## Linked programs -/

variable {l : Linking}

/-- What linking has gone through when it succeeds: the pass over the labels and the pass over the
nodes. -/
theorem passes_of_link (h : link is = .ok l) :
    is ≠ [] ∧ ∃ table nodes, collectLabels (nodeCount is) 0 0 [] is = .ok table ∧
      addNodes (nodeCount is) table 0 #[] is = .ok nodes ∧
      l = ⟨⟨nodes⟩, table.length, is.length⟩ := by
  simp only [link, bind, Except.bind, pure, Except.pure, throw, throwThe, MonadExceptOf.throw] at h
  rcases is with _ | ⟨i, is⟩
  · cases h
  · simp only [List.isEmpty_cons, Bool.false_eq_true, if_false] at h
    split at h
    · cases h
    · next table labels =>
      split at h
      · cases h
      · next nodes hnodes =>
        cases h
        exact ⟨List.cons_ne_nil i is, table, nodes, labels, hnodes, rfl⟩

/-- The label table and the nodes of a program that has been linked. -/
theorem built_of_link (h : link is = .ok l) :
    is ≠ [] ∧ (∃ table, Covers is table is) ∧ Built is l.program.nodes is := by
  obtain ⟨nonempty, table, nodes, labels, hnodes, rfl⟩ := passes_of_link h
  have whole : is = [] ++ is := rfl
  have known := collectLabels_spec whole (covers_nil is) labels
  exact ⟨nonempty, ⟨table, known⟩, addNodes_spec whole known (built_nil is) hnodes⟩

theorem size_of_link (h : link is = .ok l) : l.program.size = nodeCount is := by
  obtain ⟨-, -, built⟩ := built_of_link h
  rw [Program.size, built.size, slotAt_length]

/-- The instructions of a linked program refer to labels that lead somewhere. -/
theorem resolved_of_link (h : link is = .ok l) {place : Nat} {i : Instruction}
    (executable : ExecutableAt is place i) : Resolved is i := by
  obtain ⟨-, -, built⟩ := built_of_link h
  obtain ⟨bound, -⟩ := List.getElem?_eq_some_iff.mp executable.1
  exact (built.node place i bound executable).2

/-- The node in the slot of a place. -/
theorem node?_slotAt (h : link is = .ok l) {place : Nat} {i : Instruction}
    (executable : ExecutableAt is place i) :
    l.program.node? (slotAt is place) = some (nodeAt is place i) := by
  obtain ⟨-, -, built⟩ := built_of_link h
  obtain ⟨bound, -⟩ := List.getElem?_eq_some_iff.mp executable.1
  exact (built.node place i bound executable).1

/-- **The nodes of a linked program** are those of the places at which something is done. -/
theorem node?_of_link (h : link is = .ok l) {slot : Nat} {node : Node} :
    l.program.node? slot = some node ↔
      ∃ place i, ExecutableAt is place i ∧ slotAt is place = slot ∧ node = nodeAt is place i := by
  constructor
  · intro stands
    have bound : slot < nodeCount is := by
      rw [← size_of_link h]
      exact (Array.getElem?_eq_some_iff.mp stands).1
    obtain ⟨place, i, executable, rfl⟩ := exists_place is bound
    refine ⟨place, i, executable, rfl, ?_⟩
    rw [node?_slotAt h executable] at stands
    exact (Option.some.inj stands).symm
  · rintro ⟨place, i, executable, rfl, rfl⟩
    exact node?_slotAt h executable

/-- Execution of a linked program begins somewhere. -/
theorem exists_first (h : link is = .ok l) : ∃ place, placeFrom is 0 = some place := by
  obtain ⟨nonempty, ⟨table, known⟩, -⟩ := built_of_link h
  apply exists_placeFrom
  rw [slotAt_zero]
  obtain ⟨i, rest, rfl⟩ := List.exists_cons_of_ne_nil nonempty
  rcases defined : i.defined? with _ | name
  · have executable : ExecutableAt (i :: rest) 0 i :=
      ⟨rfl, by simp [Instruction.isExecutable, defined]⟩
    exact Nat.zero_lt_of_lt executable.slotAt_lt
  · have here : definition? (i :: rest) name = some 0 := by
      simp [definition?, List.findIdx?_cons, defined]
    obtain ⟨place, leads⟩ := known.leads name 0 here
    obtain ⟨-, ⟨j, executable⟩, -⟩ := placeFrom_eq_some leads
    exact Nat.zero_lt_of_lt executable.slotAt_lt

/-- A linked program has nodes. -/
theorem size_pos_of_link (h : link is = .ok l) : 0 < l.program.size := by
  obtain ⟨place, first⟩ := exists_first h
  obtain ⟨-, ⟨i, executable⟩, -⟩ := placeFrom_eq_some first
  rw [size_of_link h]
  exact Nat.zero_lt_of_lt executable.slotAt_lt

end Linking

end Whitespace
