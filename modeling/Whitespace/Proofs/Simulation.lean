import Mathlib.Data.List.Forall2
import Whitespace.Proofs.Consistency

/-!
# Linking preserves meaning

A source can be executed where it stands: a walker over its places passes over label definitions,
looks for the label whenever it calls or jumps, and saves the place behind a call.  A machine on the
linked program does the same on slots, with nothing left to look for.  The two stay in step
(`simulation_of_link`): after any number of steps they agree on all that can be observed, and the
next step returns the same state or the same fault.

The simulation is functional.  `Program.place` names every slot by the place of its node, and under
this renaming a machine of a linked program *is* the walker over the source (`after_walker`).
-/

namespace Whitespace

namespace Linking

/-- The chart of a source: at each place its instruction, the place where execution goes on behind
it, and the place where its label leads. -/
def sourceChart (is : List Instruction) : Chart := fun place =>
  is[place]?.map fun i => ⟨place, i, placeFrom is (place + 1), i.target?.bind (destination? is)⟩

end Linking

/-- A walker at the beginning of a source. -/
def Walker.start (is : List Instruction) (streams : Streams) : Walker where
  world := { streams }
  current := (Linking.placeFrom is 0).getD 0

namespace Program

/-- The place of the instruction in a slot. -/
def place (p : Program) (slot : Nat) : Nat :=
  ((p.node? slot).map Node.index).getD slot

/-- A slot holds the instruction that stands at a place of a source. -/
def Holds (p : Program) (is : List Instruction) (slot place : Nat) : Prop :=
  ∃ node, p.node? slot = some node ∧ node.index = place ∧ is[place]? = some node.instruction

end Program

/-- A machine and a walker over the source agree on all that can be observed: words, addresses,
streams and state are the same, and slots hold what stands at the places of the walker. -/
structure InStep (is : List Instruction) (p : Program) (m : Machine) (streams : Streams)
    (w : Walker) : Prop where
  stack : m.stack.toList.reverse = w.world.stack
  heap : ∀ address, m.heap.get address = w.world.heap address
  calls : List.Forall₂ (Option.Rel (p.Holds is)) m.calls w.world.calls
  current : p.Holds is m.current w.current
  streams : streams = w.world.streams
  state : m.state = w.state

variable {is : List Instruction} {l : Linking}

/-! ## Slots renamed to places -/

/-- A slot of a linked program holds what stands at its place. -/
theorem holds_place (h : link is = .ok l) {slot : Nat} (bound : slot < l.program.size) :
    l.program.Holds is slot (l.program.place slot) := by
  obtain ⟨node, stands⟩ := Program.exists_node bound
  obtain ⟨place, i, executable, -, rfl⟩ := (Linking.node?_of_link h).mp stands
  have here : l.program.place slot = place := by
    rw [Program.place, stands]
    rfl
  exact ⟨_, stands, here.symm, by rw [here]; exact executable.1⟩

/-- The slot of a place is named by that place. -/
theorem place_slotAt (h : link is = .ok l) {place : Nat} {i : Instruction}
    (executable : Linking.ExecutableAt is place i) :
    l.program.place (Linking.slotAt is place) = place := by
  rw [Program.place, Linking.node?_slotAt h executable]
  rfl

/-- Where execution goes on is the same for slots and for places. -/
theorem map_place_slotAt (h : link is = .ok l) (target : Option Nat)
    (executable : ∀ place, target = some place → ∃ i, Linking.ExecutableAt is place i) :
    (target.map (Linking.slotAt is)).map l.program.place = target := by
  cases target with
  | none => rfl
  | some place =>
    obtain ⟨i, here⟩ := executable place rfl
    rw [Option.map_some, Option.map_some, place_slotAt h here]

/-- A node of a linked program is found in the chart of the source, under the name of its slot. -/
theorem sourceChart_place (h : link is = .ok l) {slot : Nat} {node : Node}
    (stands : l.program.node? slot = some node) :
    Linking.sourceChart is (l.program.place slot) =
      some { node with
        next := node.next.map l.program.place
        branch := node.branch.map l.program.place } := by
  obtain ⟨place, i, executable, rfl, rfl⟩ := (Linking.node?_of_link h).mp stands
  have found : ∀ start target, Linking.placeFrom is start = some target →
      ∃ i, Linking.ExecutableAt is target i :=
    fun _ _ leads => (Linking.placeFrom_eq_some leads).2.1
  have next := map_place_slotAt h (Linking.placeFrom is (place + 1)) (found _)
  have branch := map_place_slotAt h (i.target?.bind (Linking.destination? is)) (by
    intro target leads
    obtain ⟨name, -, leads⟩ := Option.bind_eq_some_iff.mp leads
    obtain ⟨definition, -, leads⟩ := Option.bind_eq_some_iff.mp leads
    exact found _ target leads)
  rw [place_slotAt h executable, Linking.sourceChart, executable.1, Option.map_some]
  simp only [Linking.nodeAt, next, branch]

namespace Machine

variable {m : Machine}

/-- **A step** of a machine of a linked program is a step of the walker over the source. -/
theorem step_walker_of_link (h : link is = .ok l) (config : Config) (streams : Streams)
    (valid : m.Valid l.program) :
    (m.walker l.program.place streams).step (Linking.sourceChart is) =
      let outcome := m.step config l.program streams
      (outcome.result, outcome.machine.walker l.program.place outcome.streams) := by
  obtain ⟨node, stands⟩ := Program.exists_node valid.current
  exact step_walker config stands (sourceChart_place h stands)

/-- A new machine is a walker at the beginning of the source. -/
theorem start_walker (h : link is = .ok l) (streams : Streams) :
    (start l.program).walker l.program.place streams = Walker.start is streams := by
  obtain ⟨place, first⟩ := Linking.exists_first h
  obtain ⟨-, ⟨i, executable⟩, same⟩ := Linking.placeFrom_eq_some first
  have entry : l.program.place l.program.entry = place := by
    rw [← place_slotAt h executable, same]
    rfl
  have heap : (start l.program).heap.get = fun _ => 0 := by
    funext address
    exact Heap.get_empty address
  simp only [walker, Workspace.world, Walker.start, heap, first, Option.getD_some]
  rw [show (start l.program).current = l.program.entry from rfl, entry]
  rfl

/-- **Any number of steps** keeps a machine of a linked program the walker over the source. -/
theorem after_walker (h : link is = .ok l) (config : Config) (streams : Streams) (n : Nat) :
    let now := after config l.program n (start l.program) streams
    now.1.Valid l.program ∧
      now.1.walker l.program.place now.2 =
        Walker.after (Linking.sourceChart is) n (Walker.start is streams) := by
  have closed := closed_of_link h
  induction n with
  | zero => exact ⟨valid_start closed, start_walker h streams⟩
  | succ n ih =>
    obtain ⟨valid, walks⟩ := ih
    have step := step_walker_of_link h config
      (after config l.program n (start l.program) streams).2 valid
    rw [after_succ, Walker.after_succ, ← walks, step]
    exact ⟨(step_valid config _ closed valid).1, rfl⟩

/-- What a machine is under the renaming agrees with it on all that can be observed. -/
theorem inStep_walker (h : link is = .ok l) (valid : m.Valid l.program) (streams : Streams) :
    InStep is l.program m streams (m.walker l.program.place streams) where
  stack := rfl
  heap _ := rfl
  calls := by
    refine List.forall₂_map_right_iff.mpr (List.forall₂_same.mpr ?_)
    intro saved member
    cases saved with
    | none => exact .none
    | some slot => exact .some (holds_place h (valid.calls slot member))
  current := holds_place h valid.current
  streams := rfl
  state := rfl

end Machine

/-- **Linking preserves meaning.**  A machine of a linked program and a walker over the source, set
to work on the same streams, agree after any number of steps.  The next step returns the same state
or the same fault, and a fault names an instruction of the source, with its place, that is not a
label definition. -/
theorem simulation_of_link (h : link is = .ok l) (config : Config) (streams : Streams) (n : Nat) :
    let now := Machine.after config l.program n (Machine.start l.program) streams
    let w := Walker.after (Linking.sourceChart is) n (Walker.start is streams)
    InStep is l.program now.1 now.2 w ∧
      (now.1.step config l.program now.2).result = (w.step (Linking.sourceChart is)).1 ∧
      ∀ f, (now.1.step config l.program now.2).result = .error f →
        ∃ i place, f.site = some ⟨i, place⟩ ∧ is[place]? = some i ∧ i.defined? = none := by
  obtain ⟨valid, walks⟩ := Machine.after_walker h config streams n
  have agree := Machine.inStep_walker h valid
    (Machine.after config l.program n (Machine.start l.program) streams).2
  have step := Machine.step_walker_of_link h config
    (Machine.after config l.program n (Machine.start l.program) streams).2 valid
  rw [walks] at agree step
  refine ⟨agree, (congrArg Prod.fst step).symm, ?_⟩
  intro f failed
  obtain ⟨-, node, stands, site⟩ :=
    (Machine.step_valid config _ (closed_of_link h) valid).2 f failed
  obtain ⟨place, i, executable, -, rfl⟩ := (Linking.node?_of_link h).mp stands
  exact ⟨i, place, site, executable.1, Option.isNone_iff_eq_none.mp executable.2⟩

/-- A call that stands last saves nothing, and to return from it is to leave the program. -/
theorem simulation_of_link_last_call :
    let is := [.label .jump ⟨[' ']⟩, .label .define ⟨[]⟩, .plain .ret, .label .define ⟨[' ']⟩,
      .label .call ⟨[]⟩]
    ∃ l, link is = .ok l ∧
      let now := Machine.after {} l.program 2 (Machine.start l.program) {}
      let w := Walker.after (Linking.sourceChart is) 2 (Walker.start is {})
      InStep is l.program now.1 now.2 w ∧ w.world.calls = [none] ∧
        (now.1.step {} l.program now.2).result = (w.step (Linking.sourceChart is)).1 ∧
        (w.step (Linking.sourceChart is)).1 = .error ⟨.prematureEnd, some ⟨.plain .ret, 2⟩⟩ := by
  intro is
  let l : Linking := ⟨⟨#[⟨0, .label .jump ⟨[' ']⟩, some 1, some 2⟩,
    ⟨2, .plain .ret, some 2, none⟩, ⟨4, .label .call ⟨[]⟩, none, some 1⟩]⟩, 2, 5⟩
  have linked : link is = .ok l := rfl
  obtain ⟨agree, same, -⟩ := simulation_of_link linked {} {} 2
  exact ⟨l, linked, agree, rfl, same, rfl⟩

end Whitespace
