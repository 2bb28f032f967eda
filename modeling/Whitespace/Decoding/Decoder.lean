import Whitespace.Decoding.Progress
import Whitespace.Reader

/-!
# Decoding a source, instruction by instruction

A `Decoder` reads instructions from a source one at a time.  It remembers which labels have been
defined, since a second definition is an error, and the tokens of the instruction it is at.  After
an error or the end of the source it is done: it reads no more and returns nothing more.
-/

namespace Whitespace

/-- A source from which instructions are read. -/
structure Decoder where
  reader : Reader
  /-- The labels defined so far, each with the index of its definition, last first. -/
  defined : List (Label × Nat) := []
  /-- The tokens of the instruction last begun. -/
  context : Array Token := #[]
  /-- How many instructions have been returned. -/
  count : Nat := 0
  /-- Whether there is nothing more to return. -/
  done : Bool := false
  deriving DecidableEq, Repr

namespace Decoder

/-- The decoder at the beginning of a source. -/
def ofInput (source : Input) : Decoder where
  reader := { input := source }

/-- What a decoder returns. -/
inductive Item where
  | instruction (i : Instruction)
  | error (e : DecodeError)
  | finished
  deriving DecidableEq, Repr

/-- How reading one instruction ends. -/
inductive Outcome where
  | complete (i : Instruction)
  | failed (cause : DecodeError.Cause)
  | finished
  deriving DecidableEq, Repr

/-- Reads the rest of an instruction: how that ends, the reader behind it, and all its tokens. -/
def finish (progress : Progress) (reader : Reader) (context : Array Token) :
    Outcome × Reader × Array Token :=
  match _h : reader.next with
  | (.finished, reader') =>
    match progress.unfinished? with
    | none => (.finished, reader', context)
    | some cause => (.failed cause, reader', context)
  | (.failure message, reader') => (.failed (.io message), reader', context)
  | (.token t, reader') =>
    let context := context.push t
    match progress.feed t with
    | .complete i => (.complete i, reader', context)
    | .malformed cause => (.failed cause, reader', context)
    | .more progress => finish progress reader' context
termination_by reader.input.unread
decreasing_by exact Reader.unread_lt_of_next _h

/-- The error of a decoder that has met a cause. -/
def fail (d : Decoder) (cause : DecodeError.Cause) : Item × Decoder :=
  (.error ⟨cause, d.reader.position, d.reader.offset, d.context.toList⟩, { d with done := true })

/-- Takes up an instruction that has been read: a label must not have been defined before. -/
def accept (d : Decoder) (i : Instruction) : Item × Decoder :=
  match i.defined? with
  | none => (.instruction i, { d with count := d.count + 1 })
  | some label =>
    if (d.defined.lookup label).isSome then d.fail (.duplicateLabel label)
    else
      (.instruction i,
        { d with defined := (label, d.count) :: d.defined, count := d.count + 1 })

/-- Reads one instruction. -/
def next (d : Decoder) : Item × Decoder :=
  if d.done then (.finished, d)
  else
    let (outcome, reader, context) := finish .start d.reader #[]
    let d := { d with reader, context }
    match outcome with
    | .finished => (.finished, { d with done := true })
    | .failed cause => d.fail cause
    | .complete i => d.accept i

theorem unread_lt_of_finish (progress : Progress) (reader : Reader) (context : Array Token)
    {i : Instruction} {reader' : Reader} {context' : Array Token}
    (h : finish progress reader context = (.complete i, reader', context')) :
    reader'.input.unread < reader.input.unread := by
  fun_induction finish progress reader context with
  | case1 => simp at h
  | case2 => simp at h
  | case3 => simp at h
  | case4 progress reader context t r hnext context' j hfeed =>
    simp only [Prod.mk.injEq] at h
    exact h.2.1 ▸ Reader.unread_lt_of_next hnext
  | case5 => simp at h
  | case6 progress reader context t r hnext context' p hfeed ih =>
    exact Nat.lt_trans (ih h) (Reader.unread_lt_of_next hnext)

/-- An instruction that is returned has been read. -/
theorem unread_lt_of_next {d d' : Decoder} {i : Instruction} (h : d.next = (.instruction i, d')) :
    d'.reader.input.unread < d.reader.input.unread := by
  unfold next at h
  split at h
  · simp at h
  · rcases hf : finish .start d.reader #[] with ⟨outcome, reader, context⟩
    rw [hf] at h
    cases outcome with
    | finished => simp at h
    | failed cause => simp [fail] at h
    | complete j =>
      have hlt := unread_lt_of_finish _ _ _ hf
      simp only [accept] at h
      split at h
      · simp only [Prod.mk.injEq] at h
        exact h.2 ▸ hlt
      · split at h
        · simp [fail] at h
        · simp only [Prod.mk.injEq] at h
          exact h.2 ▸ hlt

/-- Reads instructions up to the end of the source or an error, behind those already read. -/
def drain (d : Decoder) (read : Array Instruction) :
    Except DecodeError (Array Instruction) × Decoder :=
  match _h : d.next with
  | (.finished, d') => (.ok read, d')
  | (.error e, d') => (.error e, d')
  | (.instruction i, d') => drain d' (read.push i)
termination_by d.reader.input.unread
decreasing_by exact unread_lt_of_next _h

end Decoder

end Whitespace
