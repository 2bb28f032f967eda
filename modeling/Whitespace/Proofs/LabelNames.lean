import Mathlib.Data.Set.Function
import Whitespace.Proofs.LinkedProgram
import Whitespace.Proofs.Renaming

/-!
# Label names carry no meaning

Linking compares labels with each other and does nothing else with them.  If all labels of a source
are given new names, and different ones get different names, then every lookup finds what it has
found before (`Naming.lookup_table`).  So both passes do the same (`Linking.collectLabels_rename`,
`Linking.addNodes_rename`), and linking returns the same program or the same error, told with the
new names.  Runs do not look at names at all.

## Main definitions

* `labelsOf is` — the labels that occur among some instructions.
* `Naming.linking r l` — a linked program with the new names, and the counts as they were.
* `Naming.linkError r e` — a linking error with the new names.
-/

namespace Whitespace

/-- The labels that some instructions define or refer to. -/
def labelsOf (is : List Instruction) : Set Label :=
  {name | ∃ op, Instruction.label op name ∈ is}

theorem labelsOf_cons_subset (i : Instruction) (is : List Instruction) :
    labelsOf is ⊆ labelsOf (i :: is) := by
  rintro name ⟨op, member⟩
  exact ⟨op, List.mem_cons_of_mem i member⟩

theorem mem_labelsOf_of_defined {i : Instruction} {is : List Instruction} {name : Label}
    (defined : i.defined? = some name) : name ∈ labelsOf (i :: is) := by
  rw [Instruction.defined?_eq_some_iff.mp defined]
  exact ⟨.define, List.mem_cons_self⟩

theorem mem_labelsOf_of_target {i : Instruction} {is : List Instruction} {name : Label}
    (refers : i.target? = some name) : name ∈ labelsOf (i :: is) := by
  obtain ⟨op, -, rfl⟩ := Instruction.target?_eq_some_iff.mp refers
  exact ⟨op, List.mem_cons_self⟩

namespace Naming

variable (r : Naming)

/-- A label table with the new names. -/
def table (table : LabelTable) : LabelTable :=
  table.map (Prod.map r.label id)

/-- A linking error with the new names. -/
def linkError : LinkError → LinkError
  | .emptyProgram => .emptyProgram
  | .duplicateLabel name index => .duplicateLabel (r.label name) (r.place index)
  | .labelToNothing name index => .labelToNothing (r.label name) (r.place index)
  | .undefinedLabel name index => .undefinedLabel (r.label name) (r.place index)

/-- A linked program with the new names; the counts stay. -/
def linking (l : Linking) : Linking :=
  ⟨r.program l.program, l.labels, l.instructions⟩

/-- **A lookup finds the same under other names**, if the names of different labels differ. -/
theorem lookup_table {labels : Set Label} (inj : Set.InjOn r.label labels) {table : LabelTable}
    (known : ∀ entry ∈ table, entry.1 ∈ labels) {name : Label} (member : name ∈ labels) :
    (r.table table).lookup (r.label name) = table.lookup name := by
  induction table with
  | nil => rfl
  | cons entry table ih =>
    obtain ⟨first, rest⟩ := List.forall_mem_cons.mp known
    rw [Naming.table, List.map_cons, List.lookup_cons, List.lookup_cons]
    by_cases same : name = entry.1
    · simp [same]
    · have other : r.label name ≠ r.label entry.1 := fun equal => same (inj member first equal)
      rw [beq_false_of_ne same, Prod.map_fst, beq_false_of_ne other]
      exact ih rest

end Naming

namespace Linking

variable {labels : Set Label} {is : List Instruction} {r : Naming}

theorem nodeCount_rename (r : Naming) (is : List Instruction) :
    nodeCount (is.map r.instruction) = nodeCount is := by
  rw [nodeCount, List.countP_map]
  exact List.countP_congr fun i _ => by simp

/-! ## The pass over the labels -/

/-- A table knows only labels that it has been given. -/
theorem known_of_collectLabels {total index slot : Nat} {table table' : LabelTable}
    (occur : labelsOf is ⊆ labels) (known : ∀ entry ∈ table, entry.1 ∈ labels)
    (h : collectLabels total index slot table is = .ok table') :
    ∀ entry ∈ table', entry.1 ∈ labels := by
  induction is generalizing index slot table with
  | nil =>
    cases h
    exact known
  | cons i is ih =>
    have rest := (labelsOf_cons_subset i is).trans occur
    rw [collectLabels] at h
    cases defined : i.defined? with
    | none =>
      simp only [defined] at h
      exact ih rest known h
    | some name =>
      simp only [defined] at h
      split at h
      · cases h
      · split at h
        · cases h
        · have here : name ∈ labels := occur (mem_labelsOf_of_defined defined)
          exact ih rest (List.forall_mem_cons.mpr ⟨here, known⟩) h

/-- **The pass over the labels** takes up the same labels under other names. -/
theorem collectLabels_rename (places : r.place = id) (inj : Set.InjOn r.label labels)
    (total index slot : Nat) {table : LabelTable} (occur : labelsOf is ⊆ labels)
    (known : ∀ entry ∈ table, entry.1 ∈ labels) :
    collectLabels total index slot (r.table table) (is.map r.instruction) =
      ((collectLabels total index slot table is).map r.table).mapError r.linkError := by
  obtain ⟨label, place⟩ := r
  obtain rfl : place = id := places
  induction is generalizing index slot table with
  | nil => rfl
  | cons i is ih =>
    have rest := (labelsOf_cons_subset i is).trans occur
    rw [List.map_cons, collectLabels, collectLabels, Naming.defined?_instruction]
    cases defined : i.defined? with
    | none => exact ih _ _ rest known
    | some name =>
      have here : name ∈ labels := occur (mem_labelsOf_of_defined defined)
      simp only [Option.map_some, Naming.lookup_table _ inj known here]
      split
      · rfl
      · split
        · rfl
        · have known' : ∀ entry ∈ (name, slot) :: table, entry.1 ∈ labels :=
            List.forall_mem_cons.mpr ⟨here, known⟩
          exact ih _ _ rest known'

/-! ## The pass over the nodes -/

/-- A call or a jump leads to the same slot under another name. -/
theorem branch_rename (places : r.place = id) (inj : Set.InjOn r.label labels)
    {table : LabelTable} (known : ∀ entry ∈ table, entry.1 ∈ labels) (index : Nat)
    {i : Instruction} (occurs : ∀ name, i.target? = some name → name ∈ labels) :
    branch (r.table table) index (r.instruction i) =
      (branch table index i).mapError r.linkError := by
  obtain ⟨label, place⟩ := r
  obtain rfl : place = id := places
  rw [branch, branch, Naming.target?_instruction]
  cases refers : i.target? with
  | none => rfl
  | some name =>
    simp only [Option.map_some, Naming.lookup_table _ inj known (occurs name refers)]
    cases table.lookup name with
    | none => rfl
    | some slot => rfl

/-- **The pass over the nodes** builds the same nodes under other names. -/
theorem addNodes_rename (places : r.place = id) (inj : Set.InjOn r.label labels) (total : Nat)
    {table : LabelTable} (known : ∀ entry ∈ table, entry.1 ∈ labels)
    (occur : labelsOf is ⊆ labels) (index : Nat) (nodes : Array Node) :
    addNodes total (r.table table) index (nodes.map r.node) (is.map r.instruction) =
      ((addNodes total table index nodes is).map (Array.map r.node)).mapError r.linkError := by
  obtain ⟨label, place⟩ := r
  obtain rfl : place = id := places
  induction is generalizing index nodes with
  | nil => rfl
  | cons i is ih =>
    have rest := (labelsOf_cons_subset i is).trans occur
    have here := branch_rename (i := i) (r := ⟨label, id⟩) rfl inj known index
      fun name refers => occur (mem_labelsOf_of_target refers)
    rw [List.map_cons, addNodes, addNodes, Naming.isExecutable_instruction, here]
    split
    · cases branch table index i with
      | error e => rfl
      | ok branch =>
        have more := ih rest (index + 1) (nodes.push ⟨index, i,
          if nodes.size + 1 < total then some (nodes.size + 1) else none, branch⟩)
        rw [Array.map_push] at more
        -- The slot that follows is told by the number of nodes, which is the same.
        simp only [Array.size_map]
        exact more
    · exact ih rest _ _

end Linking

/-- Two computations, one behind the other, that give the same under other names. -/
theorem bind_rename {ε α β : Type} {g : α → α} {g' : β → β} {h : ε → ε} {x x' : Except ε α}
    {k k' : α → Except ε β} (first : x' = (x.map g).mapError h)
    (later : ∀ a, x = .ok a → k' (g a) = ((k a).map g').mapError h) :
    x'.bind k' = ((x.bind k).map g').mapError h := by
  subst first
  cases x with
  | error e => rfl
  | ok a => exact later a rfl

/-- Linking is one pass behind the other. -/
theorem link_eq_bind {is : List Instruction} (nonempty : is ≠ []) :
    link is = (Linking.collectLabels (Linking.nodeCount is) 0 0 [] is).bind fun table =>
      (Linking.addNodes (Linking.nodeCount is) table 0 #[] is).bind fun nodes =>
        .ok ⟨⟨nodes⟩, table.length, is.length⟩ := by
  cases is with
  | nil => exact absurd rfl nonempty
  | cons i is => rfl

/-- **Linking returns the same under other names**, program or error. -/
theorem link_map_instruction {is : List Instruction} {r : Naming} (places : r.place = id)
    (inj : Set.InjOn r.label (labelsOf is)) :
    link (is.map r.instruction) = ((link is).map r.linking).mapError r.linkError := by
  by_cases nonempty : is = []
  · rw [nonempty]
    rfl
  have nothing : ∀ entry ∈ ([] : LabelTable), entry.1 ∈ labelsOf is := by simp
  rw [link_eq_bind nonempty, link_eq_bind (by simpa using nonempty), Linking.nodeCount_rename]
  apply bind_rename (Linking.collectLabels_rename places inj _ 0 0 subset_rfl nothing)
  intro table collected
  have known := Linking.known_of_collectLabels subset_rfl nothing collected
  have nodes := Linking.addNodes_rename places inj (Linking.nodeCount is) known subset_rfl 0 #[]
  rw [Array.map_empty] at nodes
  apply bind_rename nodes
  intro nodes added
  rw [Naming.table, List.length_map, List.length_map]
  rfl

/-- **Label names carry no meaning.**  Let the labels of a source be given new names, with different
names for different labels.  If linking has succeeded, it succeeds, and the nodes are the same but
for the names that their instructions carry.  If it has failed, it fails with the same error at the
same place, for the label with the new name.

Every step of the program with the new names leaves the same machine and the same streams and
returns the same, with the new names where a fault tells its instruction; and so does every run. -/
theorem link_rename (is : List Instruction) (f : Label → Label)
    (inj : Set.InjOn f (labelsOf is)) :
    let r : Naming := { label := f }
    link (is.map r.instruction) = ((link is).map r.linking).mapError r.linkError ∧
    ∀ l l', link is = .ok l → link (is.map r.instruction) = .ok l' →
      r.RunsAlike l.program l'.program := by
  intro r
  have renamed := link_map_instruction (r := r) rfl inj
  refine ⟨renamed, ?_⟩
  intro l l' linked linked'
  rw [linked, linked'] at renamed
  obtain rfl : l' = r.linking l := Except.ok.inj renamed
  exact r.runsAlike l.program

/-- One label is the beginning of the other; of the new names neither is. -/
theorem link_rename_jumps :
    let short : Label := ⟨[' ']⟩
    let long : Label := ⟨[' ', ' ']⟩
    let f : Label → Label := fun name => if name = short then ⟨['\t', ' ']⟩ else ⟨[' ']⟩
    let r : Naming := { label := f }
    let is : List Instruction := [.label .jump short, .label .define long, .plain .stop,
      .label .define short, .label .jump long]
    Set.InjOn f (labelsOf is) ∧ ∃ l, link is = .ok l ∧
      link (is.map r.instruction) = .ok (r.linking l) ∧
      ((Machine.run 3 {} (r.program l.program) {}).map Machine.Run.result) = some (.ok ()) := by
  intro short long f r is
  have names : ∀ name ∈ labelsOf is, name = short ∨ name = long := by
    rintro name ⟨op, member⟩
    simp only [is, List.mem_cons, Instruction.label.injEq, reduceCtorEq, List.not_mem_nil] at member
    tauto
  have inj : Set.InjOn f (labelsOf is) := by
    intro name occurs name' occurs' same
    obtain rfl | rfl := names name occurs <;> obtain rfl | rfl := names name' occurs'
    · rfl
    · cases same
    · cases same
    · rfl
  let l : Linking := ⟨⟨#[⟨0, .label .jump short, some 1, some 2⟩, ⟨2, .plain .stop, some 2, none⟩,
    ⟨4, .label .jump long, none, some 1⟩]⟩, 2, 5⟩
  have linked : link is = .ok l := rfl
  obtain ⟨renamed, runs⟩ := link_rename is f inj
  rw [linked] at renamed
  refine ⟨inj, l, linked, renamed, ?_⟩
  have same := (runs l _ linked renamed).run {} 3 {}
  rw [show Machine.run 3 {} (r.program l.program) {} = _ from same]
  rfl

end Whitespace
