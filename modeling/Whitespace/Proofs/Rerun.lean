import Whitespace.Proofs.Runs

/-!
# Runs do not depend on the past, nor on being watched

Whatever a machine has been through, running a program on it is running the program on a new
machine: all that steps change is put back (`reset_eq_start`).  And whatever a configuration asks to
be reported, the run is the one that nobody watches, with more lines in its log
(`rerun_of_history`).

The lines are counted against the steps: with `debug` there is one for every node that has been
executed, which shows what the machine was like before (`log_executing`).

## Main definitions

* `Event.isExecuting` — the event says that a node is about to be executed.
* `Machine.line program m` — what is reported of the next node, if it is reported.
* `Machine.Run.ending` — all of a run but its log.
-/

namespace Whitespace

/-- The event says that a node is about to be executed. -/
def Event.isExecuting : Event → Bool
  | executing .. => true
  | _ => false

namespace Machine

/-- What is reported of the next node that a machine executes. -/
def line (program : Program) (m : Machine) : Option Event :=
  (m.next? program).map fun node =>
    .executing node.instruction node.index m.stack.toList m.calls.length

/-- All of a run but its log. -/
def Run.ending (r : Run) : Except Fault Unit × Machine × Streams :=
  (r.result, r.machine, r.streams)

variable {config : Config} {program : Program} {m : Machine} {streams : Streams}

/-! ## What a step reports -/

/-- What a step reports behind its node is known from its result. -/
theorem after_eq (config : Config) (program : Program) (m : Machine) (streams : Streams) :
    let o := m.step config program streams
    o.after = (fault? o.result).toList.map (.faulted o.machine.steps) := by
  intro o
  by_cases running : m.state = .running
  · have settled := settled_step config program streams running
    cases result : (m.step config program streams).result with
    | ok state =>
      simp only [result] at settled
      simp only [o]
      exact settled.2.2
    | error f =>
      simp only [result] at settled
      simp only [o]
      exact settled.2
  · simp only [o, step_of_not_running config program streams running]
    rfl

/-- Behind a node nothing but its fault is reported. -/
theorem after_of_step (config : Config) (program : Program) (m : Machine) (streams : Streams) :
    (m.step config program streams).after = [] ∨
      ∃ steps f, (m.step config program streams).after = [.faulted steps f] := by
  rw [after_eq]
  cases fault? (m.step config program streams).result with
  | none => exact .inl rfl
  | some f => exact .inr ⟨_, f, rfl⟩

/-- A step reports at most one node. -/
theorem filter_isExecuting_step (config : Config) (program : Program) (m : Machine)
    (streams : Streams) :
    (m.step config program streams).events.filter Event.isExecuting =
      if config.debug then (m.line program).toList else [] := by
  have behind : (m.step config program streams).after.filter Event.isExecuting = [] := by
    obtain none_left | ⟨steps, f, fault⟩ := after_of_step config program m streams
    · rw [none_left]
      rfl
    · rw [fault]
      rfl
  rw [Outcome.events, List.filter_append, behind, List.append_nil, step_config, line]
  cases m.next? program with
  | none => simp
  | some node =>
    simp only [Option.elim_some, trace, List.filter_append]
    cases config.debug <;> cases config.debugHeap <;> rfl

/-- Without the traces, a step reports what it reports in any case. -/
theorem filter_level_step (config : Config) (program : Program) (m : Machine) (streams : Streams) :
    (m.step config program streams).events.filter (·.level ≠ .trace) =
      (m.step {} program streams).events := by
  have silent : (m.step {} program streams).before = [] := by
    rw [step_config]
    cases m.next? program <;> rfl
  have behind : (m.step {} program streams).after.filter (·.level ≠ .trace) =
      (m.step {} program streams).after := by
    obtain none_left | ⟨steps, f, fault⟩ := after_of_step {} program m streams
    · rw [none_left]
      rfl
    · rw [fault]
      rfl
  rw [Outcome.events, Outcome.events, silent, step_config, List.filter_append, behind]
  congr 1
  cases m.next? program with
  | none => rfl
  | some node =>
    simp only [Option.elim_some, trace, List.filter_append]
    cases config.debug <;> cases config.debugHeap <;> rfl

/-! ## What steps report -/

/-- **Traces are all that a configuration adds** to the log. -/
theorem filter_level_log (config : Config) (program : Program) (n : Nat) (m : Machine)
    (streams : Streams) :
    (log config program n m streams).filter (·.level ≠ .trace) = log {} program n m streams := by
  induction n generalizing m streams with
  | zero => rfl
  | succ n ih =>
    rw [log, log, List.filter_append, filter_level_step, ih, step_config config]

/-- **Every node that is executed is reported once**, in order, and no other. -/
theorem log_executing (config : Config) (closed : program.Closed) (valid : m.Valid program)
    (streams : Streams) (n : Nat) :
    ∃ executed, (after {} program n m streams).1.steps = m.steps + executed ∧
      ((log config program n m streams).filter Event.isExecuting).map some =
        if config.debug then
          (List.range executed).map fun k => (after {} program k m streams).1.line program
        else [] := by
  induction n generalizing m streams with
  | zero => exact ⟨0, rfl, by simp [log]⟩
  | succ n ih =>
    by_cases running : m.state = .running
    · -- One node more, and the others come behind it.
      obtain ⟨node, stands⟩ := Program.exists_node valid.current
      have executes : m.Executes program node := ⟨running, stands⟩
      have line : m.line program = some (.executing node.instruction node.index m.stack.toList
          m.calls.length) := by
        rw [line, next?_eq_some_iff.mpr executes]
        rfl
      have step := step_config config program m streams
      obtain ⟨executed, counted, lines⟩ :=
        ih (step_valid {} streams closed valid).1 (m.step {} program streams).streams
      refine ⟨executed + 1, ?_, ?_⟩
      · rw [after, counted, executes.steps]
        omega
      · rw [log, List.filter_append, filter_isExecuting_step, List.map_append]
        simp only [step, lines, line]
        cases config.debug with
        | false => rfl
        | true =>
          simp only [if_true, List.range_succ_eq_map, List.map_cons, List.map_map, after, line]
          rfl
    · have idle : ∀ config, m.step config program streams = ⟨.ok m.state, m, streams, [], []⟩ :=
        fun config => step_of_not_running config program streams running
      obtain ⟨executed, counted, lines⟩ := ih valid streams
      refine ⟨executed, ?_, ?_⟩
      · rw [after, idle]
        exact counted
      · rw [log, idle]
        exact lines

/-! ## Runs -/

/-- **A run does not depend on what is reported.** -/
theorem resume_config (config : Config) (program : Program) (fuel : Nat) (m : Machine)
    (streams : Streams) (events events' : Array Event) :
    (resume config program fuel m streams events).map Run.ending =
      (resume {} program fuel m streams events').map Run.ending := by
  induction fuel generalizing m streams events events' with
  | zero => rfl
  | succ fuel ih =>
    rw [resume, resume, step_config]
    cases (m.step {} program streams).result with
    | error f => rfl
    | ok state =>
      cases state with
      | running => exact ih _ _ _ _
      | halted => rfl
      | faulted => rfl

/-- A run on a machine that has been used is a call that can follow. -/
theorem perform_run {fuel : Nat} {r : Run} (h : m.rerun fuel config program streams = some r) :
    m.perform config program (.run fuel streams) = (fault? r.result, r.machine) := by
  simp only [perform, h]

/-- What a run has reported: the log of its steps, and behind it that it has halted, if it has. -/
theorem exists_log_of_rerun {fuel : Nat} {r : Run}
    (h : m.rerun fuel config program streams = some r) :
    ∃ n, (r.machine, r.streams) = after config program n (start program) streams ∧
      r.events.toList = log config program n (start program) streams ++
        match r.result with
        | .ok _ => [.halted r.machine.steps]
        | .error _ => [] := by
  rw [rerun, reset_eq_start] at h
  obtain ⟨n, -, rfl⟩ := exists_outcome_of_resume h
  refine ⟨n + 1, ?_, ?_⟩
  · rw [after_succ, Outcome.close, outcome]
    split <;> rfl
  · rw [Outcome.close]
    split <;> simp

/-- **A run does not depend on the past of the machine, nor on what is reported of it.**  Let any
calls have been made on a machine with a linked program, and let the program be run on it.  After
any number of steps, the machine and the streams are those of a new machine that runs unwatched on
the same streams, and so are the results; the run ends if that one does, and in the same way.  It
succeeds exactly if the machine has halted, and fails exactly if it has faulted.

Being watched makes no difference to any machine but for its log.  The log of the run is that of the
unwatched one with traces added.  If nodes are reported, there is one line for every node that has
been executed, in order, which shows the machine before. -/
theorem rerun_of_history {is : List Instruction} {l : Linking} (h : link is = .ok l)
    {config : Config} {calls : List Call} {faults : List Fault} {m : Machine}
    (history : History config l.program calls faults m) (streams : Streams) :
    (∀ n,
      after config l.program n (m.reset l.program) streams =
          after {} l.program n (start l.program) streams ∧
        results config l.program n (m.reset l.program) streams =
          results {} l.program n (start l.program) streams) ∧
    (∀ n used streams,
      after config l.program n used streams = after {} l.program n used streams ∧
        results config l.program n used streams = results {} l.program n used streams) ∧
    (∀ n,
      let log := log config l.program n (m.reset l.program) streams
      let unwatched k := (after {} l.program k (start l.program) streams).1
      log.filter (·.level ≠ .trace) = Machine.log {} l.program n (start l.program) streams ∧
        (log.filter Event.isExecuting).map some =
          if config.debug then
            (List.range (unwatched n).steps).map fun k => (unwatched k).line l.program
          else []) ∧
    (∀ fuel, (m.rerun fuel config l.program streams).map Run.ending =
      (run fuel {} l.program streams).map Run.ending) ∧
    ∀ fuel r, m.rerun fuel config l.program streams = some r →
      (r.result = .ok () ↔ r.machine.state = .halted) ∧
      ((∃ f, r.result = .error f) ↔ r.machine.state = .faulted) ∧
      History config l.program (calls ++ [.run fuel streams])
        (faults ++ (fault? r.result).toList) r.machine ∧
      ∃ n, (r.machine, r.streams) = after config l.program n (start l.program) streams ∧
        r.events.toList = log config l.program n (start l.program) streams ++
          match r.result with
          | .ok _ => [.halted r.machine.steps]
          | .error _ => [] := by
  have closed := closed_of_link h
  have unwatched : ∀ n used streams,
      after config l.program n used streams = after {} l.program n used streams ∧
        results config l.program n used streams = results {} l.program n used streams :=
    fun n used streams => ⟨after_config .., results_config ..⟩
  refine ⟨fun n => ?_, unwatched, fun n => ⟨?_, ?_⟩, fun fuel => ?_, fun fuel r ended => ?_⟩
  · rw [reset_eq_start]
    exact unwatched n _ streams
  · exact filter_level_log config l.program n _ streams
  · obtain ⟨executed, counted, lines⟩ :=
      log_executing config closed (valid_start closed) streams n
    rw [reset_eq_start, lines, counted]
    simp [start]
  · exact resume_config config l.program fuel _ streams #[] #[]
  · obtain ⟨halted, faulted⟩ := state_of_resume rfl ended
    have again := history.call (.run fuel streams)
    rw [perform_run ended] at again
    exact ⟨halted, faulted, again, exists_log_of_rerun ended⟩

/-- A machine has faulted for want of an output; it is run once more, watched, and divides by
zero. -/
theorem rerun_of_history_division :
    let is := [.number .push 5, .number .push 7, .plain (.print .number), .number .push 0,
      .plain (.calculate .divide)]
    let config : Config := { debug := true }
    let streams : Streams := ⟨none, some {}⟩
    let log : List Event := [.executing (.number .push 5) 0 [] 0,
      .executing (.number .push 7) 1 [5] 0, .executing (.plain (.print .number)) 2 [5, 7] 0,
      .executing (.number .push 0) 3 [5] 0, .executing (.plain (.calculate .divide)) 4 [5, 0] 0,
      .faulted 5 ⟨.divideByZero, some ⟨.plain (.calculate .divide), 4⟩⟩]
    ∃ l m r, link is = .ok l ∧ m.state = .faulted ∧
      History config l.program [.run 9 {}]
        [⟨.noStream .output, some ⟨.plain (.print .number), 2⟩⟩] m ∧
      m.rerun 9 config l.program streams = some r ∧
      (run 9 {} l.program streams).map Run.ending = some r.ending ∧ r.events.toList = log := by
  intro is config streams log
  let l : Linking := ⟨⟨#[⟨0, .number .push 5, some 1, none⟩, ⟨1, .number .push 7, some 2, none⟩,
    ⟨2, .plain (.print .number), some 3, none⟩, ⟨3, .number .push 0, some 4, none⟩,
    ⟨4, .plain (.calculate .divide), none, none⟩]⟩, 0, 5⟩
  have linked : link is = .ok l := rfl
  let m := ((start l.program).perform config l.program (.run 9 {})).2
  have history : History config l.program _ _ m := .call (.run 9 {}) .new
  have logged : (m.rerun 9 config l.program streams).map (·.events.toList) = some log := by
    decide +kernel
  obtain ⟨r, ended, lines⟩ := Option.map_eq_some_iff.mp logged
  obtain ⟨-, -, -, same, -⟩ := rerun_of_history linked history streams
  refine ⟨l, m, r, linked, rfl, history, ended, ?_, lines⟩
  rw [← same 9, ended]
  rfl

end Machine

end Whitespace
