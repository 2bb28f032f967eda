import Whitespace.Proofs.Runs

/-!
# The steps since the last reset

A machine may have been stepped, reset and run in any order.  What it is now depends on the steps
taken since it was at the beginning last: since it was made, reset, or run, whichever was last.  A
`Moment` is a machine about to take a step, and the streams the step is given; `track` follows the
calls of a history and keeps the moments since the beginning.

So a property of a machine and its past needs one proof for each step, whatever call has taken it
(`History.past_induction`), and a call returns the fault of a step that it has taken, or none
(`perform_fault`).

## Main definitions

* `Machine.course config program fuel m streams` — the moments of a run.
* `Machine.moments config program m c` — the moments of a call.
* `Machine.track config program calls` — the machine that calls leave, and its past.
-/

namespace Whitespace

/-- Whether a call puts the machine back to the beginning. -/
def Call.resets : Call → Bool
  | .step _ => false
  | .reset | .run _ _ => true

namespace Machine

/-- A machine about to take a step, and the streams that the step is given. -/
structure Moment where
  machine : Machine
  streams : Streams

/-- What the step gives. -/
def Moment.outcome (config : Config) (program : Program) (now : Moment) : Outcome :=
  now.machine.step config program now.streams

/-- The fault that the step returns, if it returns one. -/
def Moment.fault? (config : Config) (program : Program) (now : Moment) : Option Fault :=
  Machine.fault? (now.outcome config program).result

/-- The moments of a run, as far as `fuel` steps go: a machine is stepped as long as it runs. -/
def course (config : Config) (program : Program) : (fuel : Nat) → Machine → Streams → List Moment
  | 0, _, _ => []
  | fuel + 1, m, streams =>
    if m.state = .running then
      let outcome := m.step config program streams
      ⟨m, streams⟩ :: course config program fuel outcome.machine outcome.streams
    else []

/-- The moments of the steps that a call takes. -/
def moments (config : Config) (program : Program) (m : Machine) : Call → List Moment
  | .step streams => [⟨m, streams⟩]
  | .reset => []
  | .run fuel streams => course config program fuel (m.reset program) streams

/-- A machine with the moments since it was at the beginning last. -/
structure Track where
  machine : Machine
  past : List Moment := []

/-- Makes a call. -/
def Track.call (config : Config) (program : Program) (t : Track) (c : Call) : Track where
  machine := (t.machine.perform config program c).2
  past := (if c.resets then [] else t.past) ++ t.machine.moments config program c

/-- Makes calls on a new machine. -/
def track (config : Config) (program : Program) (calls : List Call) : Track :=
  calls.foldl (Track.call config program) ⟨start program, []⟩

variable {config : Config} {program : Program} {m : Machine} {streams : Streams}

@[simp] theorem track_concat (calls : List Call) (c : Call) :
    track config program (calls ++ [c]) = (track config program calls).call config program c := by
  simp [track]

theorem course_of_stopped (stopped : m.state ≠ .running) (fuel : Nat) :
    course config program fuel m streams = [] := by
  cases fuel with
  | zero => rfl
  | succ fuel => rw [course, if_neg stopped]

/-- Histories are tracked. -/
theorem History.track_machine {calls : List Call} {faults : List Fault}
    (history : History config program calls faults m) :
    (track config program calls).machine = m := by
  induction history with
  | new => rfl
  | call c _ ih => rw [track_concat, Track.call, ih]

/-! ## Runs -/

/-- A run ends with the machine and the streams behind its steps. -/
theorem after_of_resume {fuel : Nat} {events : Array Event} {r : Run}
    (h : resume config program fuel m streams events = some r) :
    after config program fuel m streams = (r.machine, r.streams) := by
  induction fuel generalizing m streams events with
  | zero => cases h
  | succ fuel ih =>
    by_cases running : m.state = .running
    · have settled := settled_step config program streams running
      -- Behind a step that does not go on, the steps that are left change nothing.
      have ended (stopped : (m.step config program streams).machine.state ≠ .running) :
          after config program (fuel + 1) m streams =
            ((m.step config program streams).machine, (m.step config program streams).streams) :=
        after_of_stopped config program _ stopped fuel
      rw [resume] at h
      cases result : (m.step config program streams).result with
      | error f =>
        simp only [result] at h settled
        cases h
        exact ended (by simp [settled.1])
      | ok state =>
        simp only [result] at settled
        cases state with
        | running =>
          simp only [result] at h
          exact ih h
        | halted | faulted =>
          simp only [result] at h
          cases h
          exact ended (by simp [settled.1])
    · rw [after_of_stopped config program streams running]
      rw [resume, step_of_not_running config program streams running] at h
      cases state : m.state with
      | running => exact absurd state running
      | halted | faulted =>
        simp only [state] at h
        cases h
        rfl

/-- The machine that a run leaves is the one behind its steps. -/
theorem perform_run_machine (config : Config) (program : Program) (m : Machine) (fuel : Nat)
    (streams : Streams) :
    (m.perform config program (.run fuel streams)).2 =
      (after config program fuel (m.reset program) streams).1 := by
  rw [perform]
  split
  · next r ended => rw [after_of_resume ended]
  · rfl

/-- A run returns the fault of the one step that has failed, if one has. -/
theorem fault?_resume (running : m.state = .running) (fuel : Nat) (events : Array Event) :
    ((resume config program fuel m streams events).bind fun r => fault? r.result).toList =
      (course config program fuel m streams).filterMap (Moment.fault? config program) := by
  induction fuel generalizing m streams events with
  | zero => rfl
  | succ fuel ih =>
    have settled := settled_step config program streams running
    have outcome : (⟨m, streams⟩ : Moment).outcome config program =
      m.step config program streams := rfl
    rw [resume, course, if_pos running, List.filterMap_cons, Moment.fault?, outcome]
    cases result : (m.step config program streams).result with
    | error f =>
      simp only [result] at settled
      have stopped : (m.step config program streams).machine.state ≠ .running := by
        simp [settled.1]
      simp [fault?, course_of_stopped stopped]
    | ok state =>
      simp only [result] at settled
      cases state with
      | running =>
        simp only [fault?]
        exact ih settled.1 _
      | halted =>
        have stopped : (m.step config program streams).machine.state ≠ .running := by
          simp [settled.1]
        simp [fault?, course_of_stopped stopped]
      | faulted => exact absurd rfl settled.2.1

/-- **A call returns the faults of its steps**, of which there is at most one. -/
theorem perform_fault (config : Config) (program : Program) (m : Machine) (c : Call) :
    (m.perform config program c).1.toList =
      (m.moments config program c).filterMap (Moment.fault? config program) := by
  cases c with
  | step streams =>
    simp only [perform, moments, List.filterMap_cons, List.filterMap_nil, Moment.fault?,
      Moment.outcome]
    cases fault? (m.step config program streams).result <;> rfl
  | reset => rfl
  | run fuel streams =>
    rw [moments, ← fault?_resume rfl fuel #[], perform, rerun]
    cases resume config program fuel (m.reset program) streams #[] <;> rfl

/-! ## Induction along the past -/

variable {P : List Moment → Machine → Prop}

/-- What steps preserve of a machine and its past, runs preserve. -/
theorem course_induction
    (preserved : ∀ past m streams, P past m →
      P (past ++ [⟨m, streams⟩]) (m.step config program streams).machine)
    {past : List Moment} (holds : P past m) (streams : Streams) (fuel : Nat) :
    P (past ++ course config program fuel m streams) (after config program fuel m streams).1 := by
  induction fuel generalizing past m streams with
  | zero => rwa [course, List.append_nil]
  | succ fuel ih =>
    by_cases running : m.state = .running
    · have later := ih (preserved past m streams holds) (m.step config program streams).streams
      rw [course, if_pos running]
      rwa [List.append_assoc] at later
    · rwa [course_of_stopped running, after_of_stopped config program streams running,
        List.append_nil]

/-- **Induction along the past**: what holds of a new machine without a past, and is preserved by
steps, holds of every machine with a history and its past. -/
theorem History.past_induction (new : P [] (start program))
    (preserved : ∀ past m streams, P past m →
      P (past ++ [⟨m, streams⟩]) (m.step config program streams).machine)
    {calls : List Call} {faults : List Fault}
    (history : History config program calls faults m) :
    P (track config program calls).past m := by
  induction history with
  | new => exact new
  | @call calls faults m c before ih =>
    rw [track_concat, Track.call, before.track_machine]
    have again : P [] (m.reset program) := by
      rw [reset_eq_start]
      exact new
    cases c with
    | step streams => exact preserved _ m streams ih
    | reset => exact again
    | run fuel streams =>
      rw [perform_run_machine]
      exact course_induction preserved again streams fuel

end Machine

end Whitespace
