import Mathlib.Data.List.Nodup
import Whitespace.Proofs.LinkedProgram

/-!
# The layout of a linked program

A linked program is a row of nodes without gaps: one node for every instruction that does something,
in the order of the source, each followed by the node in the next slot.  A call or a jump leads to
the first node behind the one definition of its label (`layout_of_link`).

## Main definitions

* `executables is` — the instructions that do something, each with its place.
* `LeadsTo is p name slot` — a slot is where a label leads, told from the source alone.
-/

namespace Whitespace

namespace Linking

variable {is : List Instruction} {l : Linking}

/-! ## The row of nodes -/

/-- The instructions that do something, each with its place. -/
def executables (is : List Instruction) : List (Instruction × Nat) :=
  is.zipIdx.filter fun x => x.1.isExecutable

theorem length_filter_zipIdx (is : List Instruction) (first : Nat) :
    ((is.zipIdx first).filter fun x => x.1.isExecutable).length = nodeCount is := by
  have fsts : (is.zipIdx first).map Prod.fst = is := List.zipIdx_map_fst first is
  rw [← List.countP_eq_length_filter, nodeCount]
  conv => rhs; rw [← fsts, List.countP_map]
  rfl

/-- An instruction that does something is found in its slot. -/
theorem executables_slotAt {place : Nat} {i : Instruction} (h : ExecutableAt is place i) :
    (executables is)[slotAt is place]? = some (i, place) := by
  obtain ⟨bound, here⟩ := List.getElem?_eq_some_iff.mp h.1
  have split : is = is.take place ++ i :: is.drop (place + 1) := by
    rw [← here, ← List.drop_eq_getElem_cons bound, List.take_append_drop]
  have length : (is.take place).length = place := List.length_take_of_le (Nat.le_of_lt bound)
  have before : ((is.take place).zipIdx.filter fun x => x.1.isExecutable).length =
      slotAt is place := length_filter_zipIdx (is.take place) 0
  have row : executables is = ((is.take place).zipIdx.filter fun x => x.1.isExecutable) ++
      (i, place) :: ((is.drop (place + 1)).zipIdx (place + 1)).filter
        fun x => x.1.isExecutable := by
    conv => lhs; rw [executables, split]
    rw [List.zipIdx_append, List.filter_append, length, Nat.zero_add, List.zipIdx_cons,
      List.filter_cons, if_pos h.2]
  rw [row, List.getElem?_append_right (Nat.le_of_eq before), before, Nat.sub_self]
  rfl

/-- **The nodes of a linked program, in order.** -/
theorem nodes_of_link (h : link is = .ok l) :
    l.program.nodes.toList = (executables is).map fun x => nodeAt is x.2 x.1 := by
  refine List.ext_getElem? fun slot => ?_
  rw [List.getElem?_map, Array.getElem?_toList]
  by_cases bound : slot < nodeCount is
  · obtain ⟨place, i, executable, rfl⟩ := exists_place is bound
    rw [executables_slotAt executable]
    exact node?_slotAt h executable
  · have short : (executables is).length = nodeCount is := length_filter_zipIdx is 0
    have size : l.program.nodes.size = nodeCount is := size_of_link h
    rw [List.getElem?_eq_none (by omega), Array.getElem?_eq_none (by omega)]
    rfl

/-- Places ascend along the row. -/
theorem pairwise_executables (is : List Instruction) :
    ((executables is).map Prod.snd).Pairwise (· < ·) := by
  have places : ((executables is).map Prod.snd).Sublist (List.range' 0 is.length) := by
    rw [← List.zipIdx_map_snd]
    exact List.filter_sublist.map Prod.snd
  exact (List.pairwise_lt_range' (s := 0)).sublist places

/-! ## Following the nodes -/

/-- Every node is followed by the one in the next slot, but for the last. -/
def Sequential (p : Program) : Prop :=
  ∀ slot node, p.node? slot = some node →
    node.next = if slot + 1 < p.size then some (slot + 1) else none

theorem sequential_of_link (h : link is = .ok l) : Sequential l.program := by
  intro slot node stands
  obtain ⟨place, i, executable, rfl, rfl⟩ := (node?_of_link h).mp stands
  rw [nodeAt, map_slotAt_placeFrom, executable.slotAt_succ, size_of_link h]

theorem follow_none (p : Program) (limit : Nat) : p.follow limit none = [] := by
  cases limit <;> rfl

/-- Following such nodes is going through them slot by slot. -/
theorem follow_of_sequential {p : Program} (sequential : Sequential p) (limit slot : Nat) :
    p.follow limit (some slot) = (p.nodes.toList.drop slot).take limit := by
  induction limit generalizing slot with
  | zero => simp [Program.follow]
  | succ limit ih =>
    rw [Program.follow]
    rcases stands : p.node? slot with _ | node
    · have ended : p.nodes.toList.length ≤ slot := Array.getElem?_eq_none_iff.mp stands
      simp [List.drop_eq_nil_of_le ended]
    · obtain ⟨bound, here⟩ := Array.getElem?_eq_some_iff.mp stands
      have bound' : slot < p.nodes.toList.length := bound
      have row : p.nodes.toList.drop slot = node :: p.nodes.toList.drop (slot + 1) := by
        rw [List.drop_eq_getElem_cons bound', Array.getElem_toList, here]
      rw [row, List.take_succ_cons]
      dsimp only
      rw [sequential slot node stands]
      congr 1
      split
      · exact ih (slot + 1)
      · next last =>
        have ended : p.nodes.toList.length ≤ slot + 1 := Nat.le_of_not_lt last
        rw [follow_none, List.drop_eq_nil_of_le ended, List.take_nil]

/-! ## Labels -/

/-- The labels that are taken up are all different, and none of them was known before. -/
theorem collectLabels_distinct {total index slot : Nat} {table table' : LabelTable}
    (h : collectLabels total index slot table is = .ok table') :
    (is.filterMap Instruction.defined?).Nodup ∧
      ∀ name ∈ is.filterMap Instruction.defined?, table.lookup name = none := by
  induction is generalizing index slot table with
  | nil => simp
  | cons i is ih =>
    rw [collectLabels] at h
    rcases defined : i.defined? with _ | label
    · simp only [defined] at h
      rw [List.filterMap_cons_none defined]
      exact ih h
    · simp only [defined] at h
      split at h
      · cases h
      · next fresh =>
        split at h
        · cases h
        · obtain ⟨distinct, unknown⟩ := ih h
          have apart : ∀ name ∈ is.filterMap Instruction.defined?,
              name ≠ label ∧ table.lookup name = none := by
            intro name member
            have found := unknown name member
            rw [List.lookup_cons] at found
            by_cases same : name = label
            · simp [same] at found
            · exact ⟨same, by simpa [beq_false_of_ne same] using found⟩
          rw [List.filterMap_cons_some defined]
          refine ⟨List.nodup_cons.mpr ⟨fun again => (apart label again).1 rfl, distinct⟩, ?_⟩
          intro name member
          rcases List.mem_cons.mp member with rfl | later
          · exact Option.not_isSome_iff_eq_none.mp fresh
          · exact (apart name later).2

/-- Among definitions that are all different, each label is defined at one place. -/
theorem definition_unique (distinct : (is.filterMap Instruction.defined?).Nodup) {a b : Nat}
    {name : Label} (ha : is[a]? = some (.label .define name))
    (hb : is[b]? = some (.label .define name)) : a = b := by
  have pairs := List.pairwise_iff_getElem.mp (List.pairwise_filterMap.mp distinct)
  obtain ⟨bounda, ha⟩ := List.getElem?_eq_some_iff.mp ha
  obtain ⟨boundb, hb⟩ := List.getElem?_eq_some_iff.mp hb
  rcases Nat.lt_trichotomy a b with before | same | behind
  · exact absurd rfl (pairs a b bounda boundb before name (by rw [ha]; rfl) name (by rw [hb]; rfl))
  · exact same
  · exact absurd rfl (pairs b a boundb bounda behind name (by rw [hb]; rfl) name (by rw [ha]; rfl))

/-- The definitions of a source that is linked are all different. -/
theorem distinct_of_link (h : link is = .ok l) : (is.filterMap Instruction.defined?).Nodup := by
  obtain ⟨-, table, nodes, collected, -⟩ := passes_of_link h
  exact (collectLabels_distinct collected).1

/-- A slot is where a label leads: the label is defined at one place only, and the slot has the node
of the first instruction behind it that is no label definition. -/
def LeadsTo (is : List Instruction) (p : Program) (name : Label) (slot : Nat) : Prop :=
  ∃ place node, is[place]? = some (.label .define name) ∧
    (∀ other, is[other]? = some (.label .define name) → other = place) ∧
    p.node? slot = some node ∧ place < node.index ∧
    ∀ between, place < between → between < node.index →
      ∃ other, is[between]? = some (.label .define other)

/-- Only label definitions stand between a place and the place where execution goes on. -/
theorem defines_of_placeFrom {start place between : Nat} (h : placeFrom is start = some place)
    (from_start : start ≤ between) (before : between < place) :
    ∃ other, is[between]? = some (.label .define other) := by
  obtain ⟨-, ⟨i, executable⟩, same⟩ := placeFrom_eq_some h
  have bound : between < is.length :=
    Nat.lt_trans before (List.getElem?_eq_some_iff.mp executable.1).1
  have here : is[between]? = some is[between] := List.getElem?_eq_getElem bound
  rw [here]
  suffices is[between].isExecutable = false by
    obtain ⟨other, defines⟩ := Instruction.isExecutable_eq_false_iff.mp this
    exact ⟨other, congrArg some defines⟩
  -- Otherwise there would be one more node before the place than before the start.
  by_contra executable'
  have counted := slotAt_succ here
  rw [if_pos (by simpa using executable')] at counted
  have later := slotAt_mono is (show between + 1 ≤ place from before)
  have earlier := slotAt_mono is from_start
  omega

/-- The labels of a linked program lead to the slots that its nodes name. -/
theorem leadsTo_of_link (h : link is = .ok l) {place : Nat} {i : Instruction} {name : Label}
    (executable : ExecutableAt is place i) (refers : i.target? = some name) :
    ∃ target, (nodeAt is place i).branch = some target ∧ LeadsTo is l.program name target := by
  obtain ⟨goal, leads⟩ := resolved_of_link h executable name refers
  obtain ⟨definition, found, onward⟩ := Option.bind_eq_some_iff.mp leads
  obtain ⟨behind, ⟨j, goal_executable⟩, -⟩ := placeFrom_eq_some onward
  obtain ⟨k, here, defines⟩ := defined?_of_definition? found
  obtain rfl := Instruction.defined?_eq_some_iff.mp defines
  refine ⟨slotAt is goal, ?_, definition, nodeAt is goal j, here, ?_, ?_, behind, ?_⟩
  · rw [nodeAt, refers, Option.bind_some, leads, Option.map_some]
  · intro other again
    exact definition_unique (distinct_of_link h) again here
  · exact node?_slotAt h goal_executable
  · intro between after before
    exact defines_of_placeFrom onward after before

/-- The calls and jumps of a linked program, and only they, have a branch slot. -/
theorem branch_isSome_of_link (h : link is = .ok l) {slot : Nat} {node : Node}
    (stands : l.program.node? slot = some node) :
    node.branch.isSome ↔ ∃ op name, op ≠ .define ∧ node.instruction = .label op name := by
  obtain ⟨place, i, executable, rfl, rfl⟩ := (node?_of_link h).mp stands
  constructor
  · intro leads
    obtain ⟨slot, found⟩ := Option.isSome_iff_exists.mp leads
    obtain ⟨target, found, -⟩ := Option.map_eq_some_iff.mp found
    obtain ⟨name, refers, -⟩ := Option.bind_eq_some_iff.mp found
    obtain ⟨op, call, same⟩ := Instruction.target?_eq_some_iff.mp refers
    exact ⟨op, name, call, same⟩
  · rintro ⟨op, name, call, same⟩
    have refers := Instruction.target?_eq_some_iff.mpr ⟨op, call, same⟩
    obtain ⟨target, found, -⟩ := leadsTo_of_link h executable refers
    rw [found]
    rfl

/-! ## The layout -/

/-- **The layout of a linked program.**  It has nodes and is entered at the first.  The nodes are
the instructions that do something, in order, each with its place.  Every node is followed by the
next, but for the last, which is followed by none.  The calls and jumps, and only they, have a
branch slot, which is where their label leads.  Following the nodes from the entry meets each of
them once, in order, and then ends. -/
theorem layout_of_link (h : link is = .ok l) :
    (l.program.entry = 0 ∧ 0 < l.program.size) ∧
    (l.program.nodes.toList.map fun node => (node.instruction, node.index)) = executables is ∧
    (l.program.nodes.toList.map Node.index).Pairwise (· < ·) ∧
    (∀ slot node, l.program.node? slot = some node →
      node.next = (if slot + 1 < l.program.size then some (slot + 1) else none) ∧
      (node.branch.isSome ↔ ∃ op name, op ≠ .define ∧ node.instruction = .label op name) ∧
      ∀ op name, node.instruction = .label op name →
        ∃ target, node.branch = some target ∧ LeadsTo is l.program name target) ∧
    l.program.chain = l.program.nodes.toList ∧
    ∀ limit, l.program.follow limit (some l.program.entry) = l.program.nodes.toList.take limit := by
  have nodes := nodes_of_link h
  have followed : ∀ limit, l.program.follow limit (some l.program.entry) =
      l.program.nodes.toList.take limit :=
    fun limit => follow_of_sequential (sequential_of_link h) limit 0
  refine ⟨⟨rfl, size_pos_of_link h⟩, ?_, ?_, ?_, ?_, followed⟩
  · rw [nodes, List.map_map]
    exact List.map_id _
  · rw [nodes, List.map_map]
    exact pairwise_executables is
  · intro slot node stands
    refine ⟨sequential_of_link h slot node stands, ?_, ?_⟩
    · exact branch_isSome_of_link h stands
    · intro op name same
      obtain ⟨place, i, executable, rfl, rfl⟩ := (node?_of_link h).mp stands
      obtain rfl : i = .label op name := same
      refine leadsTo_of_link h executable (Instruction.target?_eq_some_iff.mpr ⟨op, ?_, rfl⟩)
      rintro rfl
      cases executable.2
  · exact (followed _).trans (List.take_of_length_le (Nat.le_refl _))

/-- Labels in front, side by side and behind a jump to them. -/
theorem layout_of_link_labels :
    let is := [.label .define ⟨['a']⟩, .label .define ⟨['b']⟩, .number .push 3,
      .label (.jumpIf .zero) ⟨['a']⟩, .label .call ⟨['d']⟩, .label .define ⟨['c']⟩,
      .label .define ⟨['d']⟩, .label .jump ⟨['b']⟩]
    ∃ l, link is = .ok l ∧ l.program.nodes.toList.map Node.index = [2, 3, 4, 7] ∧
      l.program.nodes.toList.map Node.branch = [none, some 0, some 3, some 0] ∧
      LeadsTo is l.program ⟨['d']⟩ 3 ∧ l.program.chain = l.program.nodes.toList := by
  intro is
  let l : Linking := ⟨⟨#[⟨2, .number .push 3, some 1, none⟩,
    ⟨3, .label (.jumpIf .zero) ⟨['a']⟩, some 2, some 0⟩,
    ⟨4, .label .call ⟨['d']⟩, some 3, some 3⟩, ⟨7, .label .jump ⟨['b']⟩, none, some 0⟩]⟩, 4, 8⟩
  have linked : link is = .ok l := rfl
  obtain ⟨-, -, -, node, chain, -⟩ := layout_of_link linked
  obtain ⟨target, branch, leads⟩ := (node 2 _ rfl).2.2 .call ⟨['d']⟩ rfl
  cases branch
  exact ⟨l, linked, rfl, rfl, leads, chain⟩

end Linking

end Whitespace
