import Whitespace.Proofs.EffectBounds
import Whitespace.Proofs.History
import Whitespace.Proofs.LinkedProgram

/-!
# Linked programs never drive a machine into an inconsistent state

A machine notices when it stands at a slot that the program does not have, when it reaches a label
definition or a jump that leads nowhere, and when a family is given an instruction of another
family.  None of this happens to a program that linking has produced (`consistent_of_history`): the
machine always stands at a node, and every continuation it has saved is a node.

The invariant is `Machine.Valid`.  It is preserved because the program is `Program.Closed`, which is
all that is used of linking: no slot that its nodes mention is missing.
-/

namespace Whitespace

/-- A program whose nodes lead only to nodes, and in which nothing is left for linking to do. -/
structure Program.Closed (p : Program) : Prop where
  nonempty : p.entry < p.size
  executable : ∀ slot node, p.node? slot = some node → node.instruction.isExecutable = true
  next : ∀ slot node target, p.node? slot = some node → node.next = some target → target < p.size
  branch : ∀ slot node target, p.node? slot = some node → node.branch = some target →
    target < p.size
  resolved : ∀ slot node, p.node? slot = some node → node.instruction.target?.isSome →
    node.branch.isSome

/-- The slots that a machine may come to are slots of the program. -/
structure Machine.Valid (p : Program) (m : Machine) : Prop where
  current : m.current < p.size
  calls : ∀ slot, some slot ∈ m.calls → slot < p.size

theorem Program.exists_node {p : Program} {slot : Nat} (h : slot < p.size) :
    ∃ node, p.node? slot = some node :=
  ⟨p.nodes[slot], Array.getElem?_eq_getElem h⟩

/-- **Linked programs are closed.** -/
theorem closed_of_link {is : List Instruction} {l : Linking} (h : link is = .ok l) :
    l.program.Closed := by
  have size := Linking.size_of_link h
  have leads : ∀ place target, Linking.placeFrom is place = some target →
      Linking.slotAt is target < l.program.size := by
    intro place target found
    obtain ⟨-, ⟨i, executable⟩, -⟩ := Linking.placeFrom_eq_some found
    rw [size]
    exact executable.slotAt_lt
  refine ⟨Linking.size_pos_of_link h, ?_, ?_, ?_, ?_⟩
  · intro slot node stands
    obtain ⟨place, i, executable, -, rfl⟩ := (Linking.node?_of_link h).mp stands
    exact executable.2
  · intro slot node target stands follows
    obtain ⟨place, i, -, -, rfl⟩ := (Linking.node?_of_link h).mp stands
    obtain ⟨next, found, rfl⟩ := Option.map_eq_some_iff.mp follows
    exact leads _ next found
  · intro slot node target stands leads_to
    obtain ⟨place, i, -, -, rfl⟩ := (Linking.node?_of_link h).mp stands
    obtain ⟨destination, found, rfl⟩ := Option.map_eq_some_iff.mp leads_to
    obtain ⟨name, -, found⟩ := Option.bind_eq_some_iff.mp found
    obtain ⟨definition, -, found⟩ := Option.bind_eq_some_iff.mp found
    exact leads _ destination found
  · intro slot node stands refers
    obtain ⟨place, i, executable, -, rfl⟩ := (Linking.node?_of_link h).mp stands
    obtain ⟨name, target⟩ := Option.isSome_iff_exists.mp refers
    obtain ⟨destination, found⟩ := Linking.resolved_of_link h executable name target
    have branch : (Linking.nodeAt is place i).branch = some (Linking.slotAt is destination) := by
      change ((i.target?.bind (Linking.destination? is)).map (Linking.slotAt is)) = _
      rw [show i.target? = some name from target, Option.bind_some, found, Option.map_some]
    rw [branch]
    rfl

/-! ## What a visit comes to -/

namespace Walker

/-- A visit goes only where the node leads, or back to where a call was made. -/
theorem visit_within (allowed : Nat → Prop) (w : Walker) (node : Node)
    (current : allowed w.current)
    (calls : ∀ slot, some slot ∈ w.world.calls → allowed slot)
    (next : ∀ slot, node.next = some slot → allowed slot)
    (branch : ∀ slot, node.branch = some slot → allowed slot) :
    allowed (w.visit node).2.current ∧
      ∀ slot, some slot ∈ (w.visit node).2.world.calls → allowed slot := by
  have within := node.instruction.effect_within next branch calls
  simp only [visit]
  rcases turn : node.instruction.effect node.next node.branch w.world with ⟨_ | move, world⟩
  · rw [turn] at within
    exact ⟨current, within.calls⟩
  · rw [turn] at within
    cases move with
    | halt => exact ⟨current, within.calls⟩
    | branch slot => exact ⟨within.move slot rfl, within.calls⟩
    | next =>
      rcases follows : node.next with _ | slot
      · exact ⟨current, within.calls⟩
      · exact ⟨next slot follows, within.calls⟩

/-- A visit that fails names the node, and finds no flaw in one that linking has dealt with. -/
theorem visit_error (w : Walker) (node : Node) {f : Fault}
    (executable : node.instruction.isExecutable = true)
    (resolved : node.instruction.target?.isSome → node.branch.isSome)
    (h : (w.visit node).1 = .error f) :
    f.cause.Consistent ∧ f.site = some ⟨node.instruction, node.index⟩ := by
  have consistent : ∀ cause,
      (node.instruction.effect node.next node.branch w.world).1 = .error cause →
        cause.Consistent :=
    fun _ => node.instruction.effect_consistent executable resolved
  simp only [visit] at h
  rcases turn : node.instruction.effect node.next node.branch w.world with ⟨cause | move, world⟩
  · rw [turn] at h
    cases h
    exact ⟨consistent cause (congrArg Prod.fst turn), rfl⟩
  · rw [turn] at h
    cases move with
    | halt => cases h
    | branch slot => cases h
    | next =>
      cases follows : node.next with
      | none =>
        rw [follows] at h
        cases h
        exact ⟨rfl, rfl⟩
      | some slot =>
        rw [follows] at h
        cases h

end Walker

namespace Machine

variable {config : Config} {p : Program} {m : Machine} {streams : Streams}

theorem valid_start (closed : p.Closed) : (start p).Valid p :=
  ⟨closed.nonempty, nofun⟩

/-- What a step of a machine amounts to is what a walker over the nodes does. -/
theorem step_of_valid (config : Config) (streams : Streams) (valid : m.Valid p) :
    (m.walker id streams).step p.node? =
      let outcome := m.step config p streams
      (outcome.result, outcome.machine.walker id outcome.streams) := by
  obtain ⟨node, stands⟩ := Program.exists_node valid.current
  refine step_walker config stands ?_
  rw [show p.node? (id m.current) = some node from stands]
  simp

/-- **A step of a valid machine** leaves it valid, and a fault it returns is no flaw and names a
node that the program has. -/
theorem step_valid (config : Config) (streams : Streams) (closed : p.Closed) (valid : m.Valid p) :
    (m.step config p streams).machine.Valid p ∧
      ∀ f, (m.step config p streams).result = .error f → f.cause.Consistent ∧
        ∃ node, p.node? m.current = some node ∧ f.site = some ⟨node.instruction, node.index⟩ := by
  obtain ⟨node, stands⟩ := Program.exists_node valid.current
  have walks := step_of_valid config streams valid
  have here : p.node? (m.walker id streams).current = some node := stands
  by_cases running : m.state = .running
  · rw [Walker.step_of_running (w := m.walker id streams) running here] at walks
    have within := Walker.visit_within (· < p.size) (m.walker id streams) node valid.current
      (by rw [walker_id_calls]; exact valid.calls)
      (fun slot => closed.next _ node slot stands) (fun slot => closed.branch _ node slot stands)
    have failed := fun f => Walker.visit_error (m.walker id streams) node (f := f)
      (closed.executable _ node stands) (closed.resolved _ node stands)
    rw [walks] at within failed
    rw [walker_id_calls] at within
    refine ⟨⟨within.1, within.2⟩, ?_⟩
    intro f h
    exact ⟨(failed f h).1, node, stands, (failed f h).2⟩
  · rw [step_of_not_running config p streams running]
    exact ⟨valid, nofun⟩

end Machine

/-- **No calls drive a machine of a linked program into an inconsistent state.**  Whatever the
streams of the steps and runs are, the machine stands at a node of the program, every continuation
that it has saved is the slot of a node, and no fault that was returned is a flaw of the program or
of the machine. -/
theorem consistent_of_history {is : List Instruction} {l : Linking} (h : link is = .ok l)
    {config : Config} {calls : List Call} {faults : List Fault} {m : Machine}
    (history : Machine.History config l.program calls faults m) :
    m.current < l.program.size ∧
      (∃ node, l.program.node? m.current = some node) ∧
      (∀ slot, some slot ∈ m.calls → slot < l.program.size) ∧
      ∀ f ∈ faults, ∀ flaw, f.cause ≠ .inconsistent flaw := by
  have closed := closed_of_link h
  obtain ⟨valid, faults_consistent⟩ := history.induction (P := Machine.Valid l.program)
    (Q := fun f => f.cause.Consistent) (Machine.valid_start closed)
    (fun m streams valid => (m.step_valid config streams closed valid).1)
    (fun m streams f valid failed => ((m.step_valid config streams closed valid).2 f failed).1)
  exact ⟨valid.current, Program.exists_node valid.current, valid.calls,
    fun f returned => (faults_consistent f returned).ne⟩

/-- A call, a run that faults for want of input, a reset and the call once more. -/
theorem consistent_of_history_mixed :
    ∃ l m, link [.label .call ⟨[]⟩, .label .define ⟨[]⟩, .plain (.read .number)] = .ok l ∧
      Machine.History {} l.program [.step {}, .run 5 {}, .reset, .step {}]
        [⟨.noStream .input, some ⟨.plain (.read .number), 2⟩⟩] m ∧
      m.current < l.program.size ∧ m.calls = [some 1] ∧
      ∀ slot, some slot ∈ m.calls → slot < l.program.size := by
  let l : Linking := ⟨⟨#[⟨0, .label .call ⟨[]⟩, some 1, some 1⟩,
    ⟨2, .plain (.read .number), none, none⟩]⟩, 1, 3⟩
  have linked : link [.label .call ⟨[]⟩, .label .define ⟨[]⟩, .plain (.read .number)] = .ok l := rfl
  have history : Machine.History {} l.program _ _ _ :=
    .call (.step {}) (.call .reset (.call (.run 5 {}) (.call (.step {}) .new)))
  obtain ⟨current, -, calls, -⟩ := consistent_of_history linked history
  exact ⟨l, _, linked, history, current, rfl, calls⟩

end Whitespace
