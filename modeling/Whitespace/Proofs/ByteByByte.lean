import Whitespace.Proofs.Delivered
import Whitespace.Proofs.ReliableReading

/-!
# Reading a stream byte by byte

`Input.Leaves` says what a stream is after some bytes of it have been read: it goes through fetched
bytes and deliveries, and fetches nothing before a byte of it is needed.  So it tells two streams
apart that have the same bytes left but have fetched differently many of them.

Every operation on a stream is a span, and a span is explained by it: bytes that satisfy the
condition are read (`Input.Leaves.span`), and then the stream is looked at, where it has a byte
(`Input.exists_span_byte`), or comes to its ending (`Input.span_of_delivered_nil`).

## Main definitions

* `Input.Leaves input front rest` — reading the bytes `front` leaves the stream `rest`.
* `Input.beyond` — the stream behind its first failure or pause.
* `Input.Remains input bytes rest` — the stream `rest` has these bytes before it comes to what
  `input` comes to.
-/

namespace Whitespace

namespace Input

/-- The stream behind its first failure or pause. -/
def beyond (input : Input) : Input :=
  ⟨[], (input.pending.dropWhile fun d => d.stop?.isNone).tail⟩

/-- Reading the bytes `front` of a stream one by one leaves the stream `rest`.  No failure and no
pause is met, and a delivery is fetched only when a byte of it is to be read. -/
inductive Leaves : Input → List UInt8 → Input → Prop where
  | refl (input : Input) : Leaves input [] input
  | fetched {bytes front : List UInt8} {pending : List Delivery} {rest : Input} (b : UInt8)
      (later : Leaves ⟨bytes, pending⟩ front rest) :
      Leaves ⟨b :: bytes, pending⟩ (b :: front) rest
  | data {bytes front : List UInt8} {pending : List Delivery} {rest : Input} {b : UInt8}
      (later : Leaves ⟨bytes, pending⟩ (b :: front) rest) :
      Leaves ⟨[], .data bytes :: pending⟩ (b :: front) rest
  | interruption {front : List UInt8} {pending : List Delivery} {rest : Input} {b : UInt8}
      (later : Leaves ⟨[], pending⟩ (b :: front) rest) :
      Leaves ⟨[], .interruption :: pending⟩ (b :: front) rest

/-- A stream that has these bytes left before it comes to what another stream comes to. -/
structure Remains (input : Input) (bytes : List UInt8) (rest : Input) : Prop where
  delivered : rest.delivered = bytes
  ending : rest.ending = input.ending
  beyond : rest.beyond = input.beyond

variable {input middle rest rest' : Input} {front more : List UInt8} {b : UInt8}

/-- Behind all deliveries there is nothing. -/
theorem beyond_of_finished (finished : input.ending = .finished) : input.beyond = {} := by
  rcases input with ⟨fetched, pending⟩
  induction pending with
  | nil => rfl
  | cons d pending ih =>
    cases d with
    | failure message | pause => cases finished
    | data bytes | interruption => exact ih finished

theorem Remains.trans {bytes : List UInt8} (first : input.Remains front middle)
    (second : middle.Remains bytes rest) : input.Remains bytes rest :=
  ⟨second.delivered, second.ending.trans first.ending, second.beyond.trans first.beyond⟩

/-! ### What is left -/

/-- What has been fetched can be read. -/
theorem leaves_fetched (front bytes : List UInt8) (pending : List Delivery) :
    Leaves ⟨front ++ bytes, pending⟩ front ⟨bytes, pending⟩ := by
  induction front with
  | nil => exact .refl _
  | cons b front ih => exact .fetched b ih

/-- What is read are the first bytes to be delivered. -/
theorem Leaves.delivered (h : input.Leaves front rest) :
    input.delivered = front ++ rest.delivered := by
  induction h with
  | refl input => rfl
  | fetched b later ih =>
    rw [List.cons_append, ← ih]
    rfl
  | data later ih =>
    rw [delivered_data, List.nil_append, ih]
  | interruption later ih =>
    rw [delivered_interruption, List.nil_append, ih]

/-- Behind the bytes that are read nothing is changed. -/
theorem Leaves.remains (h : input.Leaves front rest) : input.Remains rest.delivered rest := by
  refine ⟨rfl, ?_, ?_⟩
  · induction h with
    | refl input => rfl
    | fetched b later ih | data later ih | interruption later ih => exact ih
  · induction h with
    | refl input => rfl
    | fetched b later ih | data later ih | interruption later ih => exact ih

/-- Bytes that are to be delivered can be read. -/
theorem exists_leaves (h : front <+: input.delivered) : ∃ rest, input.Leaves front rest := by
  rcases input with ⟨bytes, pending⟩
  induction pending generalizing bytes front with
  | nil =>
    obtain ⟨more, split⟩ := h
    have whole : bytes = front ++ more := by simpa [delivered] using split.symm
    exact ⟨_, whole ▸ leaves_fetched front more []⟩
  | cons d pending ih =>
    induction bytes generalizing front with
    | nil =>
      cases front with
      | nil => exact ⟨_, .refl _⟩
      | cons b front =>
        cases d with
        | failure message | pause => simp [delivered] at h
        | interruption =>
          obtain ⟨rest, later⟩ := ih [] h
          exact ⟨rest, .interruption later⟩
        | data bytes =>
          obtain ⟨rest, later⟩ := ih bytes h
          exact ⟨rest, .data later⟩
    | cons c bytes ih' =>
      cases front with
      | nil => exact ⟨_, .refl _⟩
      | cons b front =>
        obtain ⟨rfl, h⟩ := List.cons_prefix_cons.mp h
        obtain ⟨rest, later⟩ := ih' h
        exact ⟨rest, .fetched b later⟩

/-- One part is read after another. -/
theorem Leaves.append (first : input.Leaves front middle) (second : middle.Leaves more rest) :
    input.Leaves (front ++ more) rest := by
  induction first with
  | refl input => exact second
  | fetched b later ih => exact .fetched b (ih second)
  | data later ih => exact .data (ih second)
  | interruption later ih => exact .interruption (ih second)

/-- What is left is determined. -/
theorem Leaves.unique (h : input.Leaves front rest) (h' : input.Leaves front rest') :
    rest = rest' := by
  induction h with
  | refl input => cases h' with | refl _ => rfl
  | fetched b later ih => cases h' with | fetched _ later' => exact ih later'
  | data later ih => cases h' with | data later' => exact ih later'
  | interruption later ih => cases h' with | interruption later' => exact ih later'

theorem Leaves.eq_of_nil (h : input.Leaves [] rest) : rest = input :=
  h.unique (.refl input)

/-- What is read in two parts leaves something between them. -/
theorem Leaves.split (h : input.Leaves (front ++ more) rest) :
    ∃ middle, input.Leaves front middle ∧ middle.Leaves more rest := by
  have begins : front <+: input.delivered := by
    rw [h.delivered, List.append_assoc]
    exact List.prefix_append _ _
  obtain ⟨middle, first⟩ := exists_leaves begins
  have later : more <+: middle.delivered := by
    have same := h.delivered.symm.trans first.delivered
    rw [List.append_assoc, List.append_cancel_left_eq] at same
    exact ⟨_, same⟩
  obtain ⟨rest', second⟩ := exists_leaves later
  exact ⟨middle, first, h.unique (first.append second) ▸ second⟩

/-! ### What a span does -/

variable {p : UInt8 → Bool}

/-- A fetched byte that satisfies the condition is taken first. -/
theorem spanFrom_cons (fit : p b = true) (bytes : List UInt8) (pending : List Delivery) :
    spanFrom p (b :: bytes) pending =
      { spanFrom p bytes pending with taken := b :: (spanFrom p bytes pending).taken } := by
  rw [spanFrom.eq_def, spanFrom.eq_def p bytes, List.dropWhile_cons_of_pos fit,
    List.takeWhile_cons_of_pos fit]
  cases bytes.dropWhile p with
  | cons c rest => rfl
  | nil =>
    cases pending with
    | nil => rfl
    | cons d pending => cases d <;> rfl

/-- A fetched byte that does not satisfy the condition stays where it is. -/
theorem spanFrom_of_unfit (unfit : p b = false) (bytes : List UInt8) (pending : List Delivery) :
    spanFrom p (b :: bytes) pending = ⟨[], .byte b, ⟨b :: bytes, pending⟩⟩ := by
  rw [spanFrom.eq_def, List.dropWhile_cons_of_neg (by simp [unfit]),
    List.takeWhile_cons_of_neg (by simp [unfit])]

/-- **Bytes that satisfy the condition are taken** before the stream is looked at. -/
theorem Leaves.span (h : input.Leaves front rest) (fit : ∀ b ∈ front, p b = true) :
    input.span p = { rest.span p with taken := front ++ (rest.span p).taken } := by
  induction h with
  | refl input => rfl
  | fetched b later ih =>
    have ih := ih fun c member => fit c (List.mem_cons_of_mem b member)
    rw [Input.span] at ih ⊢
    rw [spanFrom_cons (fit b List.mem_cons_self), ih]
    rfl
  | data later ih => exact ih fit
  | interruption later ih => exact ih fit

/-- A stream that has been read up to a byte, which has been fetched. -/
structure Ready (input : Input) (front : List UInt8) (b : UInt8) (more : List UInt8)
    (ready : Input) : Prop where
  split : input.delivered = front ++ b :: more
  fetched : ready.fetched.head? = some b
  remains : input.Remains (b :: more) ready
  leaves : ∀ later rest, input.Leaves (front ++ b :: later) rest → ready.Leaves (b :: later) rest

variable {ready : Input}

/-- The fetched byte can be read. -/
theorem leaves_advance (fetched : ready.fetched.head? = some b)
    (h : ready.Leaves (b :: front) rest) : ready.advance.Leaves front rest := by
  rcases ready with ⟨bytes, pending⟩
  cases bytes with
  | nil => cases fetched
  | cons c bytes => cases h with | fetched _ later => exact later

/-- Nothing but the fetched byte has been read then. -/
theorem Ready.advance (h : input.Ready front b more ready) : input.Remains more ready.advance := by
  obtain ⟨-, fetched, remains, -⟩ := h
  rcases ready with ⟨bytes, pending⟩
  cases bytes with
  | nil => cases fetched
  | cons c bytes => exact ⟨(List.cons.inj remains.delivered).2, remains.ending, remains.beyond⟩

/-- Bytes have been read before. -/
theorem Ready.behind (first : input.Leaves front middle) (h : middle.Ready [] b more ready) :
    input.Ready front b more ready where
  split := by rw [first.delivered, h.split, List.nil_append]
  fetched := h.fetched
  remains := first.remains.trans h.remains
  leaves later rest all := by
    obtain ⟨middle', first', second⟩ := all.split
    obtain rfl := first.unique first'
    exact h.leaves later rest second

/-- From a byte that is ready the stream is read up to another. -/
theorem Ready.trans {ready' : Input} {front' more' : List UInt8} {c : UInt8}
    (h : input.Ready front b more ready) (h' : ready.Ready front' c more' ready') :
    input.Ready (front ++ front') c more' ready' := by
  have same : b :: more = front' ++ c :: more' := h.remains.delivered.symm.trans h'.split
  refine ⟨?_, h'.fetched, h.remains.trans h'.remains, fun later rest all => ?_⟩
  · rw [h.split, same, List.append_assoc]
  · -- What has been read in between begins with the first byte, which is the second if it is empty.
    obtain ⟨later', begins⟩ : ∃ later', front' ++ c :: later = b :: later' := by
      cases front' with
      | nil => exact ⟨later, by rw [(List.cons.inj same).1]; rfl⟩
      | cons d front' => exact ⟨front' ++ c :: later, by rw [(List.cons.inj same).1]; rfl⟩
    rw [List.append_assoc, begins] at all
    have left := h.leaves later' rest all
    rw [← begins] at left
    exact h'.leaves later rest left

/-- **A byte that does not satisfy the condition stops a span**, and it has been fetched then. -/
theorem exists_span_byte (unfit : p b = false) (next : input.delivered = b :: more) :
    ∃ ready, input.span p = ⟨[], .byte b, ready⟩ ∧ input.Ready [] b more ready := by
  rcases input with ⟨bytes, pending⟩
  induction pending generalizing bytes with
  | nil =>
    obtain rfl : bytes = b :: more := by simpa [delivered] using next
    exact ⟨_, spanFrom_of_unfit unfit more [], next, rfl, ⟨next, rfl, rfl⟩, fun _ _ h => h⟩
  | cons d pending ih =>
    cases bytes with
    | cons c bytes =>
      obtain rfl : c = b := (List.cons.inj next).1
      exact ⟨_, spanFrom_of_unfit unfit bytes _, next, rfl, ⟨next, rfl, rfl⟩, fun _ _ h => h⟩
    | nil =>
      cases d with
      | failure message | pause => simp [delivered] at next
      | interruption =>
        obtain ⟨ready, stopped, -, fetched, remains, leaves⟩ := ih [] next
        refine ⟨ready, stopped, next, fetched, ⟨remains.1, remains.2, remains.3⟩,
          fun later rest h => ?_⟩
        cases h with | interruption h => exact leaves later rest h
      | data bytes =>
        obtain ⟨ready, stopped, -, fetched, remains, leaves⟩ := ih bytes next
        refine ⟨ready, stopped, next, fetched, ⟨remains.1, remains.2, remains.3⟩,
          fun later rest h => ?_⟩
        cases h with | data h => exact leaves later rest h

/-- **A span comes to the ending** of the stream where nothing is to be delivered before. -/
theorem span_of_delivered_nil (none_left : input.delivered = []) :
    input.span p = ⟨[], input.ending, input.beyond⟩ := by
  rcases input with ⟨bytes, pending⟩
  induction pending generalizing bytes with
  | nil =>
    obtain rfl : bytes = [] := (List.append_eq_nil_iff.mp none_left).1
    rfl
  | cons d pending ih =>
    obtain rfl : bytes = [] := (List.append_eq_nil_iff.mp none_left).1
    cases d with
    | failure message | pause => rfl
    | interruption => exact ih [] none_left
    | data bytes => exact ih bytes none_left

end Input

/-! ## Operations -/

namespace Reading

open Input

variable {α β : Type} {input ready : Input} {p : UInt8 → Bool} {front more : List UInt8} {b : UInt8}
  {message : String}

/-- The byte that ends the longest beginning of bytes that satisfies a condition does not satisfy
it. -/
theorem unfit_of_head?_dropWhile {bytes : List UInt8}
    (first : (bytes.dropWhile p).head? = some b) : p b = false := by
  have spec := List.head?_dropWhile_not p bytes
  rwa [first] at spec

/-- An operation that fails ends what it is part of. -/
theorem bind_error {reading : Reading α} (rest : α → Reading β) {cause : Cause}
    (failed : reading input = .error cause ready) :
    (reading >>= rest) input = .error cause ready := by
  change EStateM.bind reading rest input = _
  rw [EStateM.bind, failed]

/-- **Bytes are read up to one that does not satisfy the condition.** -/
theorem takeWhile_byte (next : input.delivered = front ++ b :: more)
    (fit : ∀ b ∈ front, p b = true) (unfit : p b = false) :
    ∃ ready, takeWhile p input = .ok front ready ∧ input.Ready front b more ready := by
  obtain ⟨middle, left⟩ := exists_leaves ⟨b :: more, next.symm⟩
  have next' : middle.delivered = b :: more :=
    List.append_cancel_left (left.delivered.symm.trans next)
  obtain ⟨ready, looked, is_ready⟩ := exists_span_byte unfit next'
  refine ⟨ready, ?_, is_ready.behind left⟩
  simp [takeWhile, left.span fit, looked]

/-- What is left of a stream of which everything that is delivered has been read. -/
theorem exists_leaves_delivered (input : Input) :
    ∃ rest, input.Leaves input.delivered rest ∧ rest.delivered = [] := by
  obtain ⟨rest, left⟩ := exists_leaves (List.prefix_refl input.delivered)
  exact ⟨rest, left, List.self_eq_append_right.mp left.delivered⟩

/-- A span takes all bytes that are delivered if they satisfy the condition. -/
theorem span_of_fit (fit : ∀ b ∈ input.delivered, p b = true) :
    input.span p = ⟨input.delivered, input.ending, input.beyond⟩ := by
  obtain ⟨middle, left, none_left⟩ := exists_leaves_delivered input
  rw [left.span fit, span_of_delivered_nil none_left, left.remains.ending, left.remains.beyond,
    List.append_nil]

/-- **Bytes are read up to the failure.** -/
theorem takeWhile_failure (fit : ∀ b ∈ input.delivered, p b = true)
    (failure : input.ending = .failure message) :
    takeWhile p input = .error (.io message) input.beyond := by
  simp [takeWhile, span_of_fit fit, failure]

/-- **Bytes are read up to the end.** -/
theorem takeWhile_end (fit : ∀ b ∈ input.delivered, p b = true)
    (finished : input.ending = .finished) : takeWhile p input = .ok input.delivered {} := by
  simp [takeWhile, span_of_fit fit, finished, beyond_of_finished finished]

/-- A byte is seen, and fetched. -/
theorem peek_byte (next : input.delivered = b :: more) :
    ∃ ready, peek input = .ok (some b) ready ∧ input.Ready [] b more ready := by
  obtain ⟨ready, looked, is_ready⟩ := exists_span_byte (p := fun _ => false) rfl next
  exact ⟨ready, by simp [peek, looked], is_ready⟩

theorem peek_failure (none_left : input.delivered = [])
    (failure : input.ending = .failure message) :
    peek input = .error (.io message) input.beyond := by
  simp [peek, span_of_delivered_nil none_left, failure]

/-- A pause is taken for the end. -/
theorem peek_end (none_left : input.delivered = [])
    (ended : input.ending = .pause ∨ input.ending = .finished) :
    peek input = .ok none input.beyond := by
  obtain paused | finished := ended
  · simp [peek, span_of_delivered_nil none_left, paused]
  · simp [peek, span_of_delivered_nil none_left, finished]

/-- A byte that has been fetched is seen where it is. -/
theorem peek_fetched (fetched : input.fetched.head? = some b) :
    peek input = .ok (some b) input := by
  rcases input with ⟨bytes, pending⟩
  cases bytes with
  | nil => cases fetched
  | cons c bytes =>
    cases fetched
    simp [peek, span, spanFrom_of_unfit]

end Reading

end Whitespace
