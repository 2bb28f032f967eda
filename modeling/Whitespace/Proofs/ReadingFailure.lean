import Whitespace.Machine.Execute

/-!
# How reading fails

Reading from a stream fails in three ways only: the stream fails, it ends before anything was read,
or what was read is no number (`Format.reading_fails`).  The proof goes over the operations that
reading is put together from, with one rule for each way of putting them together.
-/

namespace Whitespace

/-- The causes that reading may have for failing. -/
inductive Cause.OfReading : Cause → Prop where
  | io (message : String) : OfReading (.io message)
  | endOfInput : OfReading .endOfInput
  | malformedNumber (token : List Char) : OfReading (.malformedNumber token)

namespace Reading

variable {α β : Type}

/-- Whatever the stream is, an operation that fails has one of the causes of reading. -/
def FailsAsReading (reading : Reading α) : Prop :=
  ∀ input cause rest, reading input = .error cause rest → cause.OfReading

theorem failsAsReading_pure (a : α) : FailsAsReading (pure a : Reading α) :=
  fun _ _ _ h => nomatch h

theorem failsAsReading_throw {cause : Cause} (allowed : cause.OfReading) :
    FailsAsReading (throw cause : Reading α) := by
  intro input other rest h
  obtain ⟨rfl, -⟩ := EStateM.Result.error.inj h
  exact allowed

theorem failsAsReading_bind {reading : Reading α} {more : α → Reading β}
    (first : FailsAsReading reading) (second : ∀ a, FailsAsReading (more a)) :
    FailsAsReading (reading >>= more) := by
  intro input cause rest h
  change EStateM.bind reading more input = _ at h
  unfold EStateM.bind at h
  split at h
  · next a input' _ => exact second a input' cause rest h
  · next other input' failed =>
    obtain ⟨rfl, rfl⟩ := EStateM.Result.error.inj h
    exact first input other input' failed

theorem failsAsReading_takeWhile (p : UInt8 → Bool) : FailsAsReading (takeWhile p) := by
  intro input cause rest h
  rw [takeWhile] at h
  split at h
  · next message _ =>
    obtain ⟨rfl, -⟩ := EStateM.Result.error.inj h
    exact .io message
  · exact nomatch h

theorem failsAsReading_peek : FailsAsReading peek := by
  intro input cause rest h
  rw [peek] at h
  split at h
  · next message _ =>
    obtain ⟨rfl, -⟩ := EStateM.Result.error.inj h
    exact .io message
  · exact nomatch h
  · exact nomatch h
  · exact nomatch h

theorem failsAsReading_advance : FailsAsReading advance :=
  fun _ _ _ h => nomatch h

/-- The end of reading a number: its text must be one. -/
theorem failsAsReading_word (text : List Char) :
    FailsAsReading (match Decimal.word? text with
      | some value => (pure value : Reading Int64)
      | none => throw (.malformedNumber text)) := by
  split
  · exact failsAsReading_pure _
  · exact failsAsReading_throw (.malformedNumber text)

theorem failsAsReading_number : FailsAsReading number := by
  rw [number]
  refine failsAsReading_bind (failsAsReading_takeWhile _) fun _ => ?_
  refine failsAsReading_bind (failsAsReading_takeWhile _) fun token => ?_
  split
  · exact failsAsReading_throw .endOfInput
  · refine failsAsReading_bind (failsAsReading_takeWhile _) fun _ => ?_
    refine failsAsReading_bind failsAsReading_peek fun next => ?_
    split
    · exact failsAsReading_bind failsAsReading_advance fun _ => failsAsReading_word _
    · exact failsAsReading_word _

theorem failsAsReading_characterFrom (bytes : List UInt8) (owed : Nat) :
    FailsAsReading (characterFrom bytes owed) := by
  induction owed generalizing bytes with
  | zero => exact failsAsReading_pure _
  | succ owed ih =>
    rw [characterFrom]
    refine failsAsReading_bind failsAsReading_peek fun next => ?_
    split
    · exact failsAsReading_pure _
    · split
      · exact failsAsReading_bind failsAsReading_advance fun _ => ih _
      · exact failsAsReading_pure _

theorem failsAsReading_character : FailsAsReading character := by
  rw [character]
  refine failsAsReading_bind failsAsReading_peek fun next => ?_
  split
  · exact failsAsReading_throw .endOfInput
  · exact failsAsReading_bind failsAsReading_advance fun _ => failsAsReading_characterFrom _ _

end Reading

/-- **Reading fails in three ways only.** -/
theorem Format.reading_fails (format : Format) : Reading.FailsAsReading format.reading := by
  cases format with
  | number => exact Reading.failsAsReading_number
  | character =>
    exact Reading.failsAsReading_bind Reading.failsAsReading_character
      fun _ => Reading.failsAsReading_pure _

end Whitespace
