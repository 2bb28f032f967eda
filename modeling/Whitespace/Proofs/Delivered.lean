import Mathlib.Data.List.TakeWhile
import Whitespace.Proofs.Signals

/-!
# What is delivered before a failure

A stream may fail or pause, and more may come behind.  What counts up to there are the bytes that
are delivered before the first failure or pause.  Their tokens are the first signals of the stream,
and behind them comes the failure, the pause or the end (`Input.signals_delivered`).  A span goes no
further: it takes all these bytes, unless it is stopped at one of them (`Input.spanFrom_takes`).

## Main definitions

* `Input.ending`, `Input.failure?` — the first failure or pause of a stream, or its end; the
  failure.
* `Input.delivered` — the bytes before that.
* `Input.Follows rest failure?` — these signals come behind them.
* `Input.Span.Takes bytes span` — the span takes all these bytes, or leaves some behind a byte that
  stops it.
-/

namespace Whitespace

namespace Input

/-- What a stream comes to: its first failure or pause, or its end. -/
def ending (input : Input) : Stop :=
  (input.pending.findSome? Delivery.stop?).getD .finished

/-- A stream comes to a failure, to a pause or to its end. -/
theorem ending_cases (input : Input) :
    (∃ message, input.ending = .failure message) ∨ input.ending = .pause ∨
      input.ending = .finished := by
  rcases input with ⟨fetched, pending⟩
  induction pending with
  | nil => exact .inr (.inr rfl)
  | cons d pending ih =>
    cases d with
    | failure message => exact .inl ⟨message, rfl⟩
    | pause => exact .inr (.inl rfl)
    | data bytes | interruption => exact ih

/-- The failure that stops a reading. -/
def Stop.failure? : Stop → Option String
  | failure message => some message
  | byte _ | pause | finished => none

/-- The first failure that is to come, if there is no pause before. -/
def failure? (input : Input) : Option String :=
  input.ending.failure?

/-- The bytes to be read before the first failure or pause; all of them if none comes. -/
def delivered (input : Input) : List UInt8 :=
  input.fetched ++
    (input.pending.takeWhile fun d => d.stop?.isNone).flatMap Delivery.bytes

variable (fetched : List UInt8) (pending : List Delivery)

theorem delivered_data (bytes : List UInt8) :
    (Input.mk fetched (.data bytes :: pending)).delivered =
      fetched ++ (Input.mk bytes pending).delivered :=
  rfl

theorem delivered_interruption :
    (Input.mk fetched (.interruption :: pending)).delivered =
      fetched ++ (Input.mk [] pending).delivered :=
  rfl

theorem signals_data (bytes : List UInt8) :
    (Input.mk fetched (.data bytes :: pending)).signals =
      (significant fetched).map .token ++ (Input.mk bytes pending).signals :=
  rfl

theorem signals_interruption :
    (Input.mk fetched (.interruption :: pending)).signals =
      (significant fetched).map .token ++ (Input.mk [] pending).signals :=
  rfl

/-- From a reliable stream all bytes are delivered. -/
theorem Reliable.delivered_eq {input : Input} (reliable : input.Reliable) :
    input.delivered = input.bytes := by
  have all : (input.pending.takeWhile fun d => d.stop?.isNone) = input.pending :=
    List.takeWhile_eq_self_iff.mpr fun d member => Option.isNone_iff_eq_none.mpr (reliable d member)
  rw [delivered, all, bytes]

/-- What comes behind the bytes that are delivered, by what the stream comes to. -/
def Follows (rest : List Signal) : Option String → Prop
  | none => ∃ more, Signal.Ends rest more
  | some message => ∃ more, rest = .failure message :: more

/-- **The signals of a stream** are the tokens that are delivered, and behind them the failure, the
pause or the end. -/
theorem signals_delivered (input : Input) :
    ∃ rest, input.signals = (significant input.delivered).map .token ++ rest ∧
      Follows rest input.failure? := by
  rcases input with ⟨fetched, pending⟩
  induction pending generalizing fetched with
  | nil => exact ⟨[], by simp [signals, delivered], [], .finished⟩
  | cons d pending ih =>
    cases d with
    | failure message =>
      exact ⟨_, by simp [signals, delivered, Delivery.signals]; rfl, _, rfl⟩
    | pause =>
      exact ⟨_, by simp [signals, delivered, Delivery.signals]; rfl, _, .pause _⟩
    | interruption =>
      obtain ⟨rest, later, ends⟩ := ih []
      refine ⟨rest, ?_, ends⟩
      rw [signals_interruption, later, delivered_interruption, significant_append,
        List.map_append, List.append_assoc]
    | data bytes =>
      obtain ⟨rest, later, ends⟩ := ih bytes
      refine ⟨rest, ?_, ends⟩
      rw [signals_data, later, delivered_data, significant_append, List.map_append,
        List.append_assoc]

/-- A span takes all of these bytes, unless it is stopped at a byte and leaves some. -/
def Span.Takes (bytes : List UInt8) (span : Span) : Prop :=
  match span.stop with
  | .byte _ => span.taken ++ span.rest.delivered = bytes
  | .failure _ | .pause | .finished => span.taken = bytes

/-- More bytes are taken before. -/
theorem Span.Takes.behind {bytes : List UInt8} {span : Span} (h : span.Takes bytes) :
    Takes (fetched ++ bytes) { span with taken := fetched ++ span.taken } := by
  rcases span with ⟨taken, stop, rest⟩
  rw [Takes] at h ⊢
  cases stop with
  | byte b =>
    simp only at h ⊢
    rw [List.append_assoc, h]
  | failure message | pause | finished => exact congrArg (fetched ++ ·) h

/-- **A span goes as far as the failure or the pause**, unless a byte stops it. -/
theorem spanFrom_takes (p : UInt8 → Bool) :
    (spanFrom p fetched pending).Takes (Input.mk fetched pending).delivered := by
  induction pending generalizing fetched with
  | nil =>
    unfold spanFrom
    split
    · next b rest found =>
      simp only [Span.Takes, delivered, ← found, ← List.append_assoc,
        List.takeWhile_append_dropWhile]
    · simp [Span.Takes, delivered]
  | cons d pending ih =>
    unfold spanFrom
    split
    · next b rest found =>
      simp only [Span.Takes, delivered, ← found, ← List.append_assoc,
        List.takeWhile_append_dropWhile]
    · cases d with
      | failure message | pause => simp [Span.Takes, delivered]
      | interruption =>
        rw [delivered_interruption]
        exact (ih []).behind fetched
      | data bytes =>
        rw [delivered_data]
        exact (ih bytes).behind fetched

end Input

end Whitespace
