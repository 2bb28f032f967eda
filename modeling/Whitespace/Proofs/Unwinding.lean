import Whitespace.Proofs.Consistency

/-!
# How calls unwind

A call saves the slot behind it, and a return takes the slot that was saved last.  No other
instruction touches what is saved, so calls and returns match like brackets, however the program
jumps about between them: as long as more is saved than before a call, the slot of the call lies
above what was saved then, and the step that ends this is the return that goes back to the call
(`unwind_of_link`).

A step does one of three things to the calls (`Machine.step_calls`).  From this the invariant of a
whole run is that what lies deep enough stays (`Machine.IsRun.suffix`).

## Main definitions

* `Machine.Executes program m node` — the next step executes the node.
* `Machine.IsRun config program m streams` — the machines `m 0`, `m 1`, … are those of a run, the
  steps of which are given the streams `streams 0`, `streams 1`, …
* `Machine.Outcome.Resumes o site continuation` — a return goes on at a continuation.
-/

namespace Whitespace

/-! ## Effects and calls -/

theorem World.leave_calls (w : World) (target : Option Nat) :
    (w.leave target).2.calls = w.calls := by
  cases target <;> rfl

/-- Only calls and returns change what is saved. -/
theorem Instruction.effect_calls {i : Instruction} (no_call : ∀ name, i ≠ .label .call name)
    (no_return : i ≠ .plain .ret) (follow target : Option Nat) (w : World) :
    (i.effect follow target w).2.calls = w.calls := by
  cases i with
  | number op operand => exact (op.effect_local operand w).calls
  | label op name =>
    cases op with
    | define => rfl
    | call => exact absurd rfl (no_call name)
    | jump => exact w.leave_calls target
    | jumpIf condition =>
      simp only [effect, LabelOp.effect]
      split
      · rfl
      · split
        · exact World.leave_calls _ target
        · rfl
  | plain op =>
    by_cases stop : op = .stop
    · subst stop
      simp only [effect, PlainOp.effect]
      split <;> rfl
    · exact (PlainOp.effect_local (fun ret => no_return (congrArg _ ret)) stop w).calls

/-- A visit leaves what the effect of the instruction leaves. -/
theorem Walker.visit_world (w : Walker) (node : Node) :
    (w.visit node).2.world = (node.instruction.effect node.next node.branch w.world).2 := by
  simp only [visit]
  rcases node.instruction.effect node.next node.branch w.world with ⟨_ | _ | _ | _, world⟩
  · rfl
  · cases node.next <;> rfl
  · rfl
  · rfl

namespace Machine

/-- The next step of a machine executes a node. -/
structure Executes (program : Program) (m : Machine) (node : Node) : Prop where
  running : m.state = .running
  stands : program.node? m.current = some node

/-- A return goes on at a continuation; if there is none, it leaves the program. -/
def Outcome.Resumes (o : Outcome) (site : Site) : Option Nat → Prop
  | some slot => o.result = .ok .running ∧ o.machine.current = slot
  | none => o.result = .error ⟨.prematureEnd, some site⟩

variable {config : Config} {program : Program}

section Steps

variable {m : Machine} {node : Node} (executes : m.Executes program node) (streams : Streams)

include executes

/-- Executing a node is visiting it, slots not renamed. -/
theorem Executes.visit (config : Config) :
    (m.walker id streams).visit node =
      let outcome := m.step config program streams
      (outcome.result, outcome.machine.walker id outcome.streams) := by
  have same : node = { node with next := node.next.map id, branch := node.branch.map id } := by
    simp
  have shown : program.node? (id m.current) = some node := executes.stands
  rw [← step_walker config executes.stands (shown.trans (congrArg some same)),
    Walker.step_of_running executes.running shown]

/-- What a step saves is what the effect of the node saves. -/
theorem Executes.calls (config : Config) :
    (m.step config program streams).machine.calls =
      (node.instruction.effect node.next node.branch (m.walker id streams).world).2.calls := by
  rw [← Walker.visit_world, executes.visit streams config]
  exact (walker_id_calls _ _).symm

/-- **A call** saves the slot behind it. -/
theorem Executes.call {name : Label} (call : node.instruction = .label .call name)
    (leads : node.branch.isSome) (config : Config) :
    (m.step config program streams).machine.calls = node.next :: m.calls := by
  obtain ⟨slot, found⟩ := Option.isSome_iff_exists.mp leads
  rw [executes.calls streams config, call, found]
  exact congrArg _ (walker_id_calls m streams)

/-- **A return** takes the slot that was saved last and goes on there. -/
theorem Executes.ret {continuation : Option Nat} {rest : List (Option Nat)}
    (ret : node.instruction = .plain .ret) (saved : m.calls = continuation :: rest)
    (config : Config) :
    (m.step config program streams).machine.calls = rest ∧
      (m.step config program streams).Resumes ⟨.plain .ret, node.index⟩ continuation := by
  have visit := executes.visit streams config
  have saved' := (walker_id_calls m streams).trans saved
  simp only [Walker.visit, ret, Instruction.effect, PlainOp.effect, saved'] at visit
  cases continuation with
  | none =>
    obtain ⟨result, machine⟩ := Prod.mk.inj visit
    have calls := congrArg (fun w : Walker => w.world.calls) machine
    exact ⟨(walker_id_calls _ _).symm.trans calls.symm, result.symm⟩
  | some slot =>
    obtain ⟨result, machine⟩ := Prod.mk.inj visit
    have calls := congrArg (fun w : Walker => w.world.calls) machine
    have current := congrArg Walker.current machine
    exact ⟨(walker_id_calls _ _).symm.trans calls.symm, result.symm, current.symm⟩

/-- **A return with nothing saved** is a fault. -/
theorem Executes.ret_of_nil (ret : node.instruction = .plain .ret) (saved : m.calls = [])
    (config : Config) :
    (m.step config program streams).result =
      .error ⟨.returnWithoutCall, some ⟨.plain .ret, node.index⟩⟩ := by
  have visit := executes.visit streams config
  have saved' := (walker_id_calls m streams).trans saved
  simp only [Walker.visit, ret, Instruction.effect, PlainOp.effect, saved'] at visit
  exact (congrArg Prod.fst visit).symm

/-- Other instructions leave alone what is saved. -/
theorem Executes.other (no_call : ∀ name, node.instruction ≠ .label .call name)
    (no_return : node.instruction ≠ .plain .ret) (config : Config) :
    (m.step config program streams).machine.calls = m.calls := by
  rw [executes.calls streams config, Instruction.effect_calls no_call no_return, walker_id_calls]

end Steps

/-- **What a step does to the calls**: nothing, or it is a call that saves the slot behind it, or it
is a return that takes the last one and goes on there. -/
theorem step_calls (config : Config) (program : Program) (m : Machine) (streams : Streams) :
    (m.step config program streams).machine.calls = m.calls ∨
      (∃ node name, m.Executes program node ∧ node.instruction = .label .call name ∧
        (m.step config program streams).machine.calls = node.next :: m.calls) ∨
      ∃ node continuation, m.Executes program node ∧ node.instruction = .plain .ret ∧
        m.calls = continuation :: (m.step config program streams).machine.calls ∧
        (m.step config program streams).Resumes ⟨.plain .ret, node.index⟩ continuation := by
  by_cases running : m.state = .running
  · rcases stands : program.node? m.current with _ | node
    · left
      simp only [step, running, stands]
      rfl
    · have executes : m.Executes program node := ⟨running, stands⟩
      by_cases ret : node.instruction = .plain .ret
      · rcases saved : m.calls with _ | ⟨continuation, rest⟩
        · left
          rw [executes.calls streams config, ret]
          simp [Instruction.effect, PlainOp.effect, walker_id_calls, saved]
        · obtain ⟨taken, resumes⟩ := executes.ret streams ret saved config
          exact .inr (.inr ⟨node, continuation, executes, ret, by rw [taken], resumes⟩)
      · by_cases call : ∃ name, node.instruction = .label .call name
        · obtain ⟨name, call⟩ := call
          rcases leads : node.branch with _ | slot
          · left
            rw [executes.calls streams config, call, leads]
            exact walker_id_calls m streams
          · have saved := executes.call streams call (by rw [leads]; rfl) config
            exact .inr (.inl ⟨node, name, executes, call, saved⟩)
        · left
          exact executes.other streams (fun name same => call ⟨name, same⟩) ret config
  · left
    rw [step_of_not_running config program streams running]

/-! ## Runs -/

/-- Some machines are those of a run: each is what a step leaves of the one before, whatever streams
the step is given. -/
def IsRun (config : Config) (program : Program) (m : Nat → Machine) (streams : Nat → Streams) :
    Prop :=
  ∀ k, m (k + 1) = ((m k).step config program (streams k)).machine

/-- The machines after any number of steps, each given what the step before leaves of the streams,
are those of a run. -/
theorem isRun_after (config : Config) (program : Program) (m : Machine) (streams : Streams) :
    IsRun config program (fun k => (after config program k m streams).1)
      fun k => (after config program k m streams).2 := by
  intro k
  exact congrArg Prod.fst (after_succ config program k m streams)

variable {m : Nat → Machine} {streams : Nat → Streams}

/-- **What is saved deep enough stays**: some continuations lie at the outer end of the calls as
long as there are so many. -/
theorem IsRun.suffix (run : IsRun config program m streams) {saved : List (Option Nat)} {i j : Nat}
    (later : i ≤ j) (now : saved <:+ (m i).calls)
    (deep : ∀ k, i ≤ k → k ≤ j → saved.length ≤ (m k).calls.length) : saved <:+ (m j).calls := by
  induction later with
  | refl => exact now
  | @step j later ih =>
    have before := ih fun k from_i to_j => deep k from_i (Nat.le_succ_of_le to_j)
    have enough := deep (j + 1) (Nat.le_succ_of_le later) (Nat.le_refl _)
    rw [run j] at enough ⊢
    obtain same | ⟨_, _, -, -, more⟩ | ⟨_, _, -, -, taken, -⟩ :=
      step_calls config program (m j) (streams j)
    · rwa [same]
    · rw [more]
      exact before.trans (List.suffix_cons _ _)
    · rw [taken] at before
      rcases List.suffix_cons_iff.mp before with whole | rest
      · rw [whole, List.length_cons] at enough
        omega
      · exact rest

/-- The step behind which no more is saved than before a call is the return from that call. -/
theorem IsRun.return_of_call (run : IsRun config program m streams) {continuation : Option Nat}
    {saved : List (Option Nat)} {j : Nat} (now : continuation :: saved <:+ (m j).calls)
    (back : (m (j + 1)).calls.length ≤ saved.length) :
    ∃ ret, (m j).Executes program ret ∧ ret.instruction = .plain .ret ∧
      (m (j + 1)).calls = saved ∧
      ((m j).step config program (streams j)).Resumes ⟨.plain .ret, ret.index⟩ continuation := by
  have long := now.length_le
  rw [List.length_cons] at long
  rw [run j] at back ⊢
  obtain same | ⟨_, _, -, -, more⟩ | ⟨ret, last, executes, is_return, taken, resumes⟩ :=
    step_calls config program (m j) (streams j)
  · rw [same] at back
    omega
  · rw [more, List.length_cons] at back
    omega
  · have whole := now.eq_of_length_le (by
      rw [taken, List.length_cons, List.length_cons]
      omega)
    rw [taken] at whole
    obtain ⟨rfl, rest⟩ := List.cons.inj whole
    exact ⟨ret, executes, is_return, rest.symm, resumes⟩

end Machine

/-- **Calls unwind in order.**  In a run of a linked program, whatever streams its steps are given,
a call saves the slot behind it on top of what was saved.  As long as more is saved than before the
call, all this lies at the outer end.  The first step after which it is not so is a return; it
leaves what was saved before the call, and goes on behind the call, or leaves the program if nothing
stands there.  To return with nothing saved is a fault, and only calls and returns change what is
saved. -/
theorem unwind_of_link {is : List Instruction} {l : Linking} (h : link is = .ok l) {config : Config}
    {m : Nat → Machine} {streams : Nat → Streams}
    (run : Machine.IsRun config l.program m streams) :
    (∀ i node name, (m i).Executes l.program node → node.instruction = .label .call name →
      (m (i + 1)).calls = node.next :: (m i).calls ∧
      ∀ j, i < j → (∀ k, i < k → k ≤ j → (m i).calls.length < (m k).calls.length) →
        node.next :: (m i).calls <:+ (m j).calls ∧
        ((m (j + 1)).calls.length ≤ (m i).calls.length →
          ∃ ret, (m j).Executes l.program ret ∧ ret.instruction = .plain .ret ∧
            (m (j + 1)).calls = (m i).calls ∧
            ((m j).step config l.program (streams j)).Resumes ⟨.plain .ret, ret.index⟩
              node.next)) ∧
    (∀ i node, (m i).Executes l.program node → node.instruction = .plain .ret → (m i).calls = [] →
      ((m i).step config l.program (streams i)).result =
        .error ⟨.returnWithoutCall, some ⟨.plain .ret, node.index⟩⟩) ∧
    ∀ i node, (m i).Executes l.program node → (∀ name, node.instruction ≠ .label .call name) →
      node.instruction ≠ .plain .ret → (m (i + 1)).calls = (m i).calls := by
  refine ⟨?_, ?_, ?_⟩
  · intro i node name executes call
    have leads : node.branch.isSome :=
      (closed_of_link h).resolved _ node executes.stands (by rw [call]; rfl)
    have saved : (m (i + 1)).calls = node.next :: (m i).calls :=
      (congrArg Machine.calls (run i)).trans (executes.call (streams i) call leads config)
    refine ⟨saved, fun j later deep => ?_⟩
    have here : node.next :: (m i).calls <:+ (m (i + 1)).calls := saved ▸ List.suffix_refl _
    have kept : node.next :: (m i).calls <:+ (m j).calls :=
      run.suffix later here fun k from_i to_j => deep k from_i to_j
    exact ⟨kept, run.return_of_call kept⟩
  · intro i node executes ret saved
    exact executes.ret_of_nil (streams i) ret saved config
  · intro i node executes no_call no_return
    rw [run i]
    exact executes.other (streams i) no_call no_return config

/-- A call inside a call: the second return goes back to the first call. -/
theorem unwind_of_link_nested :
    let is := [.label .call ⟨[' ']⟩, .plain .stop, .label .define ⟨[' ']⟩, .label .call ⟨['\t']⟩,
      .plain .ret, .label .define ⟨['\t']⟩, .plain .ret]
    ∃ l, link is = .ok l ∧
      let m := fun k => (Machine.after {} l.program k (Machine.start l.program) {}).1
      (m 2).calls = [some 3, some 1] ∧ [some 1] <:+ (m 3).calls ∧ (m 4).calls = [] ∧
        (m 4).current = 1 := by
  intro is
  let l : Linking := ⟨⟨#[⟨0, .label .call ⟨[' ']⟩, some 1, some 2⟩, ⟨1, .plain .stop, some 2, none⟩,
    ⟨3, .label .call ⟨['\t']⟩, some 3, some 4⟩, ⟨4, .plain .ret, some 4, none⟩,
    ⟨6, .plain .ret, none, none⟩]⟩, 2, 7⟩
  have linked : link is = .ok l := rfl
  have run := Machine.isRun_after {} l.program (Machine.start l.program) {}
  obtain ⟨-, unwinds⟩ := (unwind_of_link linked run).1 0 _ ⟨[' ']⟩ ⟨rfl, rfl⟩ rfl
  have deep : ∀ k, 0 < k → k ≤ 3 → 0 <
      (Machine.after {} l.program k (Machine.start l.program) {}).1.calls.length := by
    intro k positive small
    obtain rfl | rfl | rfl : k = 1 ∨ k = 2 ∨ k = 3 := by omega
    · decide
    · decide
    · decide
  obtain ⟨kept, back⟩ := unwinds 3 (by decide) deep
  obtain ⟨ret, -, -, calls, -, current⟩ := back (by decide)
  exact ⟨l, linked, rfl, kept, calls, current⟩

end Whitespace
