import Whitespace.Proofs.Effect
import Whitespace.Proofs.ReadingFailure

/-!
# What effects can come to

Most effects are *local*: they go on to the next instruction or fail, and leave the continuations
alone.  The exceptions are the label operations, `ret` and `stop`.  So an effect never makes up a
slot: wherever it leads, and whatever it saves, was given to it (`effect_within`), and the effect of
an instruction that linking has dealt with is no flaw (`effect_consistent`).
-/

namespace Whitespace

/-- The flaw of the program or the machine that is the cause, if it is one. -/
def Cause.flaw? : Cause → Option Flaw
  | inconsistent flaw => some flaw
  | _ => none

/-- The cause is no flaw. -/
def Cause.Consistent (cause : Cause) : Prop :=
  cause.flaw? = none

theorem Cause.Consistent.ne {cause : Cause} (h : cause.Consistent) (flaw : Flaw) :
    cause ≠ .inconsistent flaw := by
  rintro rfl
  cases h

theorem Cause.OfReading.consistent {cause : Cause} (h : cause.OfReading) : cause.Consistent := by
  cases h <;> rfl

/-! ## Local effects -/

/-- A turn that goes on to the next instruction or fails, with the continuations as they were. -/
structure Turn.Local (w : World) (t : Turn) : Prop where
  calls : t.2.calls = w.calls
  move : ∀ move, t.1 = .ok move → move = .next
  consistent : ∀ cause, t.1 = .error cause → cause.Consistent

variable {w w' : World} {follow target : Option Nat}

theorem local_proceed (same : w'.calls = w.calls) (stack : List Int64) :
    Turn.Local w (w'.proceed stack) where
  calls := same
  move := fun _ h => (Except.ok.inj h).symm
  consistent := fun _ h => nomatch h

theorem local_refuse (same : w'.calls = w.calls) (stack : List Int64) {cause : Cause}
    (consistent : cause.Consistent) : Turn.Local w (w'.refuse stack cause) where
  calls := same
  move := fun _ h => nomatch h
  consistent := fun _ h => Except.error.inj h ▸ consistent

theorem NumberOp.effect_local (op : NumberOp) (operand : Int64) (w : World) :
    Turn.Local w (op.effect operand w) := by
  cases op with
  | push => exact local_proceed rfl _
  | copy =>
    simp only [effect]
    split
    · exact local_refuse rfl _ rfl
    · split
      · exact local_proceed rfl _
      · exact local_refuse rfl _ rfl
  | slide =>
    simp only [effect]
    split
    · exact local_refuse rfl _ rfl
    · split
      · exact local_refuse rfl _ rfl
      · split
        · exact local_refuse rfl _ rfl
        · exact local_proceed rfl _

theorem Format.print_consistent {format : Format} {word : Int64} {cause : Cause}
    (h : format.print word = .error cause) : cause.Consistent := by
  cases format with
  | number => cases h
  | character =>
    simp only [print] at h
    split at h
    · cases h
    · cases h
      rfl

theorem PlainOp.effect_local {op : PlainOp} (ret : op ≠ .ret) (stop : op ≠ .stop) (w : World) :
    Turn.Local w (op.effect w) := by
  rcases w with ⟨stack, calls, heap, streams⟩
  cases op with
  | ret => exact absurd rfl ret
  | stop => exact absurd rfl stop
  | duplicate | discard | load =>
    rcases stack with _ | ⟨top, stack⟩
    · exact local_refuse rfl _ rfl
    · exact local_proceed rfl _
  | swap =>
    rcases stack with _ | ⟨top, _ | ⟨below, stack⟩⟩
    · exact local_refuse rfl _ rfl
    · exact local_refuse rfl _ rfl
    · exact local_proceed rfl _
  | store =>
    rcases stack with _ | ⟨word, _ | ⟨address, stack⟩⟩
    · exact local_refuse rfl _ rfl
    · exact local_refuse rfl _ rfl
    · simp only [effect]
      exact local_proceed (by rfl) _
  | calculate calculation =>
    rcases stack with _ | ⟨right, _ | ⟨left, stack⟩⟩
    · exact local_refuse rfl _ rfl
    · exact local_refuse rfl _ rfl
    · simp only [effect]
      split
      · exact local_refuse (by rfl) _ rfl
      · exact local_proceed (by rfl) _
  | print format =>
    rcases streams with ⟨input, _ | sink⟩
    · exact local_refuse rfl _ rfl
    · rcases stack with _ | ⟨word, stack⟩
      · exact local_refuse rfl _ rfl
      · simp only [effect]
        split
        · next cause failed => exact local_refuse rfl _ (Format.print_consistent failed)
        · split
          · exact local_proceed (by rfl) _
          · exact local_refuse (by rfl) _ rfl
  | read format =>
    rcases streams with ⟨_ | input, output⟩
    · exact local_refuse rfl _ rfl
    · rcases stack with _ | ⟨address, stack⟩
      · exact local_refuse rfl _ rfl
      · simp only [effect]
        split
        · exact local_refuse (by rfl) _ rfl
        · split
          · next cause rest failed =>
            exact local_refuse (by rfl) _ (format.reading_fails input cause rest failed).consistent
          · exact local_proceed (by rfl) _

/-! ## Where effects lead -/

/-- The slot that a turn goes to, if it does not go on or end. -/
def Turn.target? (t : Turn) : Option Nat :=
  match t.1 with
  | .ok (.branch slot) => some slot
  | _ => none

/-- The slots that a turn goes to or has saved satisfy a condition. -/
structure Turn.Within (allowed : Nat → Prop) (t : Turn) : Prop where
  move : ∀ slot, t.target? = some slot → allowed slot
  calls : ∀ slot, some slot ∈ t.2.calls → allowed slot

variable {allowed : Nat → Prop}

theorem within_of_target?_eq_none {t : Turn} (stays : t.target? = none)
    (saved : ∀ slot, some slot ∈ t.2.calls → allowed slot) : Turn.Within allowed t where
  move := by
    intro slot leads
    rw [stays] at leads
    cases leads
  calls := saved

theorem Turn.Local.within {t : Turn} (h : Turn.Local w t)
    (saved : ∀ slot, some slot ∈ w.calls → allowed slot) : Turn.Within allowed t := by
  refine within_of_target?_eq_none ?_ fun slot member => saved slot (h.calls ▸ member)
  rw [target?]
  split
  · next slot leads => cases h.move _ leads
  · rfl

theorem within_leave (leads : ∀ slot, target = some slot → allowed slot)
    (saved : ∀ slot, some slot ∈ w.calls → allowed slot) :
    Turn.Within allowed (w.leave target) := by
  cases target with
  | none => exact within_of_target?_eq_none rfl saved
  | some slot =>
    refine ⟨fun other h => ?_, saved⟩
    cases h
    exact leads slot rfl

theorem LabelOp.effect_within (op : LabelOp) (behind : ∀ slot, follow = some slot → allowed slot)
    (leads : ∀ slot, target = some slot → allowed slot)
    (saved : ∀ slot, some slot ∈ w.calls → allowed slot) :
    Turn.Within allowed (op.effect follow target w) := by
  cases op with
  | define => exact within_of_target?_eq_none rfl saved
  | call =>
    cases target with
    | none => exact within_of_target?_eq_none rfl saved
    | some slot =>
      refine ⟨fun other h => ?_, fun other member => ?_⟩
      · cases h
        exact leads slot rfl
      · rcases List.mem_cons.mp member with rfl | member
        · exact behind other rfl
        · exact saved other member
  | jump => exact within_leave leads saved
  | jumpIf condition =>
    simp only [effect]
    split
    · exact within_of_target?_eq_none rfl saved
    · split
      · exact within_leave leads saved
      · exact within_of_target?_eq_none rfl saved

theorem PlainOp.effect_within (op : PlainOp)
    (saved : ∀ slot, some slot ∈ w.calls → allowed slot) :
    Turn.Within allowed (op.effect w) := by
  by_cases ret : op = .ret
  · subst ret
    rcases w with ⟨stack, _ | ⟨_ | slot, calls⟩, heap, streams⟩
    · exact within_of_target?_eq_none rfl saved
    · exact within_of_target?_eq_none rfl fun other member =>
        saved other (List.mem_cons_of_mem _ member)
    · refine ⟨fun other h => ?_, fun other member => saved other (List.mem_cons_of_mem _ member)⟩
      cases h
      exact saved slot List.mem_cons_self
  · by_cases stop : op = .stop
    · subst stop
      simp only [effect]
      split
      · exact within_of_target?_eq_none rfl saved
      · exact within_of_target?_eq_none rfl saved
    · exact (effect_local ret stop w).within saved

/-- **An effect makes up no slots.** -/
theorem Instruction.effect_within (i : Instruction)
    (behind : ∀ slot, follow = some slot → allowed slot)
    (leads : ∀ slot, target = some slot → allowed slot)
    (saved : ∀ slot, some slot ∈ w.calls → allowed slot) :
    Turn.Within allowed (i.effect follow target w) := by
  cases i with
  | number op operand => exact (op.effect_local operand w).within saved
  | label op name => exact op.effect_within behind leads saved
  | plain op => exact op.effect_within saved

/-! ## Flaws -/

theorem PlainOp.effect_consistent {op : PlainOp} {cause : Cause}
    (h : (op.effect w).1 = .error cause) : cause.Consistent := by
  by_cases ret : op = .ret
  · subst ret
    simp only [effect] at h
    split at h
    · cases h
      rfl
    · cases h
    · cases h
      rfl
  · by_cases stop : op = .stop
    · subst stop
      simp only [effect] at h
      split at h
      · cases h
      · cases h
        rfl
    · exact (effect_local ret stop w).consistent cause h

theorem LabelOp.effect_consistent {op : LabelOp} {slot : Nat} {cause : Cause}
    (executable : op ≠ .define) (h : (op.effect follow (some slot) w).1 = .error cause) :
    cause.Consistent := by
  cases op with
  | define => exact absurd rfl executable
  | call => cases h
  | jump => cases h
  | jumpIf condition =>
    simp only [effect] at h
    split at h
    · cases h
      rfl
    · split at h <;> cases h

/-- **An effect is no flaw** if the instruction is no label definition and its label, if it has one,
leads somewhere. -/
theorem Instruction.effect_consistent {i : Instruction} {cause : Cause}
    (executable : i.isExecutable = true) (resolved : i.target?.isSome → target.isSome)
    (h : (i.effect follow target w).1 = .error cause) : cause.Consistent := by
  cases i with
  | number op operand => exact (op.effect_local operand w).consistent cause h
  | plain op => exact PlainOp.effect_consistent h
  | label op name =>
    have no_definition : op ≠ .define := by
      rintro rfl
      exact nomatch executable
    have refers : (label op name).target?.isSome := by
      cases op with
      | define => exact absurd rfl no_definition
      | call | jump | jumpIf condition => rfl
    obtain ⟨slot, rfl⟩ := Option.isSome_iff_exists.mp (resolved refers)
    exact LabelOp.effect_consistent no_definition h

end Whitespace
