import Whitespace.Proofs.Flushing
import Whitespace.Proofs.Moments

/-!
# The life of a machine

A machine runs, and then it has halted or faulted, until it is put back to the beginning.  It halts
only by a stop whose flush succeeds (`Machine.Executes.halted_iff`), and it faults exactly when a
step returns a fault (`Machine.isError_step_iff`).  Nothing happens to it afterwards.

So its state tells of its past (`Machine.Settled`): how often it was stepped while it ran, whether a
fault was returned, which is then the only one, and that it was stopped if it has halted.  A step
keeps this (`Machine.Settled.step`), whatever streams it is given, and so it holds of every machine
with a history (`Machine.lifecycle_of_history`).

## Main definitions

* `Machine.Moment.Halts program now` — the step executes a stop, and the flush succeeds.
* `Machine.Settled config program past m` — the state of the machine tells of its past.
-/

namespace Whitespace.Machine

/-- The step executes a stop, and there is no output or its flush succeeds. -/
def Moment.Halts (program : Program) (now : Moment) : Prop :=
  ∃ node, now.machine.Executes program node ∧ node.instruction = .plain .stop ∧
    now.streams.flush.1 = none

/-- The state of a machine tells of its past. -/
structure Settled (config : Config) (program : Program) (past : List Moment) (m : Machine) :
    Prop where
  valid : m.Valid program
  /-- The steps are counted that were taken while the machine ran. -/
  steps : m.steps = past.countP fun now => now.machine.state = .running
  /-- One fault was returned if the machine has faulted, and else none. -/
  faults : (past.filterMap (Moment.fault? config program)).length =
    if m.state = .faulted then 1 else 0
  /-- A machine that has halted was stopped. -/
  halted : m.state = .halted → ∃ now ∈ past, now.Halts program

variable {config : Config} {program : Program} {m : Machine} {streams : Streams} {node : Node}

/-! ## Steps -/

/-- A machine at a node becomes a halted one exactly by a step that halts. -/
theorem halted_step_iff (valid : m.Valid program) (config : Config) (streams : Streams)
    (before : m.state ≠ .halted) :
    (m.step config program streams).machine.state = .halted ↔
      Moment.Halts program ⟨m, streams⟩ := by
  by_cases running : m.state = .running
  · obtain ⟨node, stands⟩ := Program.exists_node valid.current
    have executes : m.Executes program node := ⟨running, stands⟩
    rw [executes.halted_iff]
    constructor
    · rintro ⟨stop, flushed⟩
      exact ⟨node, executes, stop, flushed⟩
    · rintro ⟨node', executes', stop, flushed⟩
      obtain rfl := Option.some.inj (stands.symm.trans executes'.stands)
      exact ⟨stop, flushed⟩
  · rw [step_of_not_running config program streams running]
    refine iff_of_false before ?_
    rintro ⟨node, executes, -, -⟩
    exact running executes.running

/-- **A fault is returned exactly when a running machine becomes a faulted one.** -/
theorem isError_step_iff (config : Config) (program : Program) (m : Machine) (streams : Streams) :
    (∃ f, (m.step config program streams).result = .error f) ↔
      m.state = .running ∧ (m.step config program streams).machine.state = .faulted := by
  by_cases running : m.state = .running
  · have settled := settled_step config program streams running
    cases result : (m.step config program streams).result with
    | error f =>
      simp only [result] at settled
      simp [running, settled.1]
    | ok state =>
      simp only [result] at settled
      simp [settled.1, settled.2.1]
  · rw [step_of_not_running config program streams running]
    simp [running]

/-- A result that is no fault is the state of the machine behind the step. -/
theorem state_of_step {state : State}
    (returned : (m.step config program streams).result = .ok state) :
    state = (m.step config program streams).machine.state := by
  by_cases running : m.state = .running
  · have settled := settled_step config program streams running
    simp only [returned] at settled
    exact settled.1.symm
  · rw [step_of_not_running config program streams running] at returned ⊢
    exact (Except.ok.inj returned).symm

/-! ## Histories -/

/-- A new machine has no past, of which it tells. -/
theorem settled_start (closed : program.Closed) : Settled config program [] (start program) where
  valid := valid_start closed
  steps := rfl
  faults := rfl
  halted := nofun

/-- **A step keeps it so that the state of a machine tells of its past.** -/
theorem Settled.step {past : List Moment} (settled : Settled config program past m)
    (closed : program.Closed) (streams : Streams) :
    Settled config program (past ++ [⟨m, streams⟩]) (m.step config program streams).machine := by
  have valid := settled.valid
  have returned := isError_step_iff config program m streams
  have result : (⟨m, streams⟩ : Moment).outcome config program =
    m.step config program streams := rfl
  refine ⟨(step_valid config streams closed valid).1, ?_, ?_, ?_⟩
  · rw [List.countP_append, ← settled.steps, List.countP_singleton]
    by_cases running : m.state = .running
    · obtain ⟨node, stands⟩ := Program.exists_node valid.current
      have executes : m.Executes program node := ⟨running, stands⟩
      simp [executes.steps, running]
    · simp [step_of_not_running config program streams running, running]
  · rw [List.filterMap_append, List.length_append, settled.faults, List.filterMap_cons,
      List.filterMap_nil, Moment.fault?, result]
    by_cases running : m.state = .running
    · cases failed : (m.step config program streams).result with
      | error f =>
        have faulted := (returned.mp ⟨f, failed⟩).2
        simp [fault?, running, faulted]
      | ok state =>
        have unfaulted : (m.step config program streams).machine.state ≠ .faulted := by
          intro faulted
          obtain ⟨f, same⟩ := returned.mpr ⟨running, faulted⟩
          rw [failed] at same
          cases same
        simp [fault?, running, unfaulted]
    · simp [step_of_not_running config program streams running, fault?]
  · intro halted
    by_cases before : m.state = .halted
    · obtain ⟨now, member, stopped⟩ := settled.halted before
      exact ⟨now, List.mem_append_left _ member, stopped⟩
    · exact ⟨⟨m, streams⟩, by simp, (halted_step_iff valid config streams before).mp halted⟩

/-- The last faults that calls have returned are those of the steps since the beginning. -/
theorem History.exists_faults {calls : List Call} {faults : List Fault}
    (history : History config program calls faults m) :
    ∃ earlier, faults =
      earlier ++ (track config program calls).past.filterMap (Moment.fault? config program) := by
  induction history with
  | new => exact ⟨[], rfl⟩
  | @call calls faults m c before ih =>
    obtain ⟨earlier, same⟩ := ih
    rw [track_concat, Track.call, before.track_machine, perform_fault, List.filterMap_append]
    cases resets : c.resets with
    | true => exact ⟨faults, rfl⟩
    | false =>
      refine ⟨earlier, ?_⟩
      rw [same, List.append_assoc]
      rfl

/-- **The life of a machine.**  Let a machine of a linked program have been stepped, each time with
any streams, reset and run in any order.  `past` are the steps since it was at the beginning last,
and `returned` are the faults that these have returned.

* A step of a machine that has halted or faulted says so and does nothing else.
* A step returns a fault exactly if a running machine has become a faulted one.  Else it returns the
  state of the machine behind it.
* A machine that has not halted becomes a halted one exactly by a stop whose flush succeeds, or that
  has no output; and one that has halted was stopped in this way.
* The calls have returned the faults of `past` last, and this is one fault if the machine has
  faulted, and else none.
* The steps that are counted are those that were taken while the machine ran.
* A reset makes the machine a new one.
* A run of the machine succeeds exactly if it has halted then, and fails exactly if it has
  faulted. -/
theorem lifecycle_of_history {is : List Instruction} {l : Linking} (h : link is = .ok l)
    {calls : List Call} {faults : List Fault}
    (history : History config l.program calls faults m) :
    let past := (track config l.program calls).past
    let returned := past.filterMap (Moment.fault? config l.program)
    (∀ streams,
      let o := m.step config l.program streams
      (m.state ≠ .running → o = ⟨.ok m.state, m, streams, [], []⟩) ∧
      ((∃ f, o.result = .error f) ↔ m.state = .running ∧ o.machine.state = .faulted) ∧
      (∀ state, o.result = .ok state → state = o.machine.state) ∧
      (m.state ≠ .halted →
        (o.machine.state = .halted ↔ Moment.Halts l.program ⟨m, streams⟩))) ∧
    (m.state = .halted → ∃ now ∈ past, now.Halts l.program) ∧
    ((∃ earlier, faults = earlier ++ returned) ∧
      returned.length = if m.state = .faulted then 1 else 0) ∧
    m.steps = past.countP (fun now => now.machine.state = .running) ∧
    m.reset l.program = start l.program ∧
    ∀ fuel streams r, m.rerun fuel config l.program streams = some r →
      (r.result = .ok () ↔ r.machine.state = .halted) ∧
      ((∃ f, r.result = .error f) ↔ r.machine.state = .faulted) := by
  intro past returned
  have closed := closed_of_link h
  have settled : Settled config l.program past m :=
    history.past_induction (settled_start closed) fun _ _ streams before =>
      before.step closed streams
  refine ⟨fun streams => ⟨?_, ?_, ?_, ?_⟩, settled.halted, ⟨history.exists_faults, settled.faults⟩,
    settled.steps, reset_eq_start l.program m, fun fuel streams r ended =>
      state_of_resume rfl ended⟩
  · exact step_of_not_running config l.program streams
  · exact isError_step_iff config l.program m streams
  · exact fun state => state_of_step
  · exact halted_step_iff settled.valid config streams

/-- A run that halts, a step that does nothing, a reset, and two steps of which the first faults. -/
theorem lifecycle_of_history_mixed :
    let is := [.label .jump ⟨[]⟩, .plain .ret, .label .define ⟨[]⟩, .plain (.print .number),
      .plain .stop]
    let f : Fault := ⟨.noStream .output, some ⟨.plain (.print .number), 3⟩⟩
    ∃ l m, link is = .ok l ∧
      History {} l.program [.run 9 {}, .step {}, .reset, .step {}, .step {}, .step {}] [f, f] m ∧
      m.state = .faulted ∧ m.steps = 2 ∧
      ((track {} l.program
          [.run 9 {}, .step {}, .reset, .step {}, .step {}, .step {}]).past.filterMap
        (Moment.fault? {} l.program)).length = 1 := by
  intro is f
  let l : Linking := ⟨⟨#[⟨0, .label .jump ⟨[]⟩, some 1, some 2⟩, ⟨1, .plain .ret, some 2, none⟩,
    ⟨3, .plain (.print .number), some 3, none⟩, ⟨4, .plain .stop, none, none⟩]⟩, 1, 5⟩
  have linked : link is = .ok l := rfl
  have history : History {} l.program
      [.run 9 {}, .step {}, .reset, .step {}, .step {}, .step {}] [f, f] _ :=
    .call (.step {}) (.call (.step {}) (.call (.step {}) (.call .reset (.call (.step {})
      (.call (.run 9 {}) .new)))))
  obtain ⟨-, -, ⟨-, once⟩, counted, -⟩ := lifecycle_of_history linked history
  exact ⟨l, _, linked, history, rfl, rfl, once⟩

end Whitespace.Machine
