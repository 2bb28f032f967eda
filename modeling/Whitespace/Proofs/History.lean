import Whitespace.Proofs.Walker

/-!
# Histories of a machine

Whoever owns a machine may step it, each time with other streams, reset it, and run it, in any
order.  `History` relates the calls made on a new machine, the faults they have returned and the
machine they have left.  A run that does not end returns nothing; it is seen as far as `fuel` steps
go.

A run puts the machine back to the beginning, where it is like a new one (`reset_eq_start`), and is
then nothing but steps (`resume_spec`).  So what holds of new machines, and is preserved by every
step, holds of every machine with a history.
-/

namespace Whitespace

/-- A call on a machine. -/
inductive Call where
  | step (streams : Streams)
  | reset
  /-- A run, as far as `fuel` steps go. -/
  | run (fuel : Nat) (streams : Streams)

namespace Machine

/-- The fault that a result is, if it is one. -/
def fault? {α : Type} : Except Fault α → Option Fault
  | .error f => some f
  | .ok _ => none

/-- Makes a call: the fault it returns, if it returns one, and the machine it leaves. -/
def perform (config : Config) (program : Program) (m : Machine) : Call → Option Fault × Machine
  | .step streams =>
    let outcome := m.step config program streams
    (fault? outcome.result, outcome.machine)
  | .reset => (none, m.reset program)
  | .run fuel streams =>
    match m.rerun fuel config program streams with
    | some r => (fault? r.result, r.machine)
    | none => (none, (after config program fuel (m.reset program) streams).1)

/-- The calls made on a new machine, the faults they have returned and the machine they have
left. -/
inductive History (config : Config) (program : Program) :
    List Call → List Fault → Machine → Prop where
  | new : History config program [] [] (start program)
  | call {calls : List Call} {faults : List Fault} {m : Machine} (c : Call) :
      History config program calls faults m →
      History config program (calls ++ [c]) (faults ++ (m.perform config program c).1.toList)
        (m.perform config program c).2

/-- **A machine that is reset is a new one.** -/
theorem reset_eq_start (program : Program) (m : Machine) : m.reset program = start program :=
  rfl

variable {config : Config} {program : Program}

/-- **A run is nothing but steps**: the machine it leaves and the fault it returns are those of some
step after others. -/
theorem resume_spec {fuel : Nat} {m : Machine} {streams : Streams} {events : Array Event} {r : Run}
    (h : resume config program fuel m streams events = some r) :
    ∃ n, let now := after config program n m streams
      let last := now.1.step config program now.2
      r.machine = last.machine ∧ fault? r.result = fault? last.result := by
  induction fuel generalizing m streams events with
  | zero => exact nomatch h
  | succ fuel ih =>
    rw [resume] at h
    cases ended : (m.step config program streams).result with
    | error f =>
      simp only [ended] at h
      cases h
      exact ⟨0, rfl, by rw [after, ended]; rfl⟩
    | ok state =>
      cases state with
      | running =>
        simp only [ended] at h
        obtain ⟨n, found⟩ := ih h
        exact ⟨n + 1, found⟩
      | halted =>
        simp only [ended] at h
        cases h
        exact ⟨0, rfl, by rw [after, ended]; rfl⟩
      | faulted =>
        simp only [ended] at h
        cases h
        exact ⟨0, rfl, by rw [after, ended]; rfl⟩

/-- What holds of a machine and is preserved by steps holds after any number of steps. -/
theorem after_induction {P : Machine → Prop}
    (preserved : ∀ m streams, P m → P (m.step config program streams).machine)
    {m : Machine} (holds : P m) (streams : Streams) (n : Nat) :
    P (after config program n m streams).1 := by
  induction n generalizing m streams with
  | zero => exact holds
  | succ n ih => exact ih (preserved m streams holds) _

variable {P : Machine → Prop} {Q : Fault → Prop} {m : Machine}

/-- What holds of new machines and is preserved by steps is preserved by every call; what holds of
the faults of steps holds of the fault that the call returns. -/
theorem perform_induction (new : P (start program))
    (preserved : ∀ m streams, P m → P (m.step config program streams).machine)
    (returned : ∀ m streams f, P m → (m.step config program streams).result = .error f → Q f)
    (holds : P m) (c : Call) :
    P (m.perform config program c).2 ∧ ∀ f, (m.perform config program c).1 = some f → Q f := by
  have of_step : ∀ m streams f, P m →
      fault? (m.step config program streams).result = some f → Q f := by
    intro m streams f holds failed
    cases result : (m.step config program streams).result with
    | ok state =>
      rw [result] at failed
      exact nomatch failed
    | error f' =>
      rw [result] at failed
      cases failed
      exact returned m streams f holds result
  have again : P (m.reset program) := by
    rw [reset_eq_start]
    exact new
  cases c with
  | step streams =>
    simp only [perform]
    exact ⟨preserved m streams holds, fun f => of_step m streams f holds⟩
  | reset =>
    simp only [perform]
    exact ⟨again, fun f none => nomatch none⟩
  | run fuel streams =>
    simp only [perform]
    split
    · next r ended =>
      obtain ⟨n, machine, fault⟩ := resume_spec ended
      have reached := after_induction preserved again streams n
      rw [machine, fault]
      exact ⟨preserved _ _ reached, fun f => of_step _ _ f reached⟩
    · exact ⟨after_induction preserved again streams fuel, fun f none => nomatch none⟩

/-- **Induction along a history**: what holds of a new machine and is preserved by steps holds of
every machine with a history; what holds of the faults of steps holds of all faults returned. -/
theorem History.induction (new : P (start program))
    (preserved : ∀ m streams, P m → P (m.step config program streams).machine)
    (returned : ∀ m streams f, P m → (m.step config program streams).result = .error f → Q f)
    {calls : List Call} {faults : List Fault}
    (history : History config program calls faults m) : P m ∧ ∀ f ∈ faults, Q f := by
  induction history with
  | new => exact ⟨new, fun f none => nomatch none⟩
  | call c _ ih =>
    obtain ⟨holds, all⟩ := ih
    have one := perform_induction new preserved returned holds c
    refine ⟨one.1, ?_⟩
    intro f member
    cases List.mem_append.mp member with
    | inl earlier => exact all f earlier
    | inr last => exact one.2 f (Option.mem_toList.mp last)

end Machine

end Whitespace
