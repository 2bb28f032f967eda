/-!
# Input streams

Bytes arrive in deliveries: some data, a failure, a pause, or an interruption, which is no event for
the reader.  A pause is a read that brings no bytes: who reads takes it for the end of the stream,
but more may come behind it, as from a terminal.  An `Input` holds the bytes that have been fetched
and not yet read, and the deliveries to come; after the last one the stream is at its end.  Nothing
is fetched before it is needed.  How bytes are divided into deliveries is left open, so a delivery
of no data stands for no read at all.

`Input.span` is the one operation that looks at a stream.  It reads the bytes that satisfy a
condition and reports what stopped it, which it leaves in place, except for a failure or a pause:
these are reported once and reading can go on behind them.
-/

namespace Whitespace

/-- What one attempt to fetch bytes brings. -/
inductive Delivery where
  | data (bytes : List UInt8)
  | failure (message : String)
  | pause
  | interruption
  deriving DecidableEq, Repr

namespace Delivery

/-- The bytes of a delivery. -/
def bytes : Delivery → List UInt8
  | data bytes => bytes
  | failure _ => []
  | pause => []
  | interruption => []

end Delivery

/-- A stream of bytes to be read: those fetched, and the deliveries to come. -/
structure Input where
  fetched : List UInt8 := []
  pending : List Delivery := []
  deriving DecidableEq, Repr

namespace Input

/-- The stream of the given bytes, in one delivery. -/
def ofBytes (bytes : List UInt8) : Input :=
  ⟨[], [.data bytes]⟩

/-- The stream of a text, in one delivery. -/
def ofText (text : String) : Input :=
  ofBytes text.toUTF8.toList

/-- The data bytes still to be read, through all failures and pauses. -/
def bytes (input : Input) : List UInt8 :=
  input.fetched ++ input.pending.flatMap Delivery.bytes

/-- How many data bytes are still to be read. -/
def unread (input : Input) : Nat :=
  input.bytes.length

/-- What ends a span. -/
inductive Stop where
  /-- A byte that does not satisfy the condition; it is not read. -/
  | byte (b : UInt8)
  /-- A failure. -/
  | failure (message : String)
  /-- A pause, which is taken for the end of the stream. -/
  | pause
  /-- The end of the stream. -/
  | finished
  deriving DecidableEq, Repr

/-- The bytes read, what stopped the reading, and the stream behind them. -/
structure Span where
  taken : List UInt8
  stop : Stop
  rest : Input
  deriving DecidableEq, Repr

/-- Reads on through fetched bytes and then through deliveries while the bytes satisfy `p`. -/
def spanFrom (p : UInt8 → Bool) (fetched : List UInt8) (pending : List Delivery) : Span :=
  match fetched.dropWhile p with
  | b :: rest => ⟨fetched.takeWhile p, .byte b, ⟨b :: rest, pending⟩⟩
  | [] =>
    match pending with
    | [] => ⟨fetched, .finished, ⟨[], []⟩⟩
    | .failure message :: more => ⟨fetched, .failure message, ⟨[], more⟩⟩
    | .pause :: more => ⟨fetched, .pause, ⟨[], more⟩⟩
    | .interruption :: more =>
      let span := spanFrom p [] more
      { span with taken := fetched ++ span.taken }
    | .data bytes :: more =>
      let span := spanFrom p bytes more
      { span with taken := fetched ++ span.taken }
termination_by structural pending

/-- Reads the bytes that satisfy `p`, up to the first that does not, a failure, a pause, or the
end. -/
def span (p : UInt8 → Bool) (input : Input) : Span :=
  spanFrom p input.fetched input.pending

/-- The stream without its next fetched byte. -/
def advance (input : Input) : Input :=
  { input with fetched := input.fetched.tail }

/-! ### What a span reads -/

/-- Nothing is lost: the bytes taken and those left make up the stream. -/
theorem spanFrom_bytes (p : UInt8 → Bool) (fetched : List UInt8) (pending : List Delivery) :
    (spanFrom p fetched pending).taken ++ (spanFrom p fetched pending).rest.bytes =
      (Input.mk fetched pending).bytes := by
  induction pending generalizing fetched with
  | nil =>
    unfold spanFrom
    split
    · next b rest h =>
      simp only [bytes, ← h, ← List.append_assoc, List.takeWhile_append_dropWhile]
    · simp [bytes]
  | cons d more ih =>
    unfold spanFrom
    split
    · next b rest h =>
      simp only [bytes, ← h, ← List.append_assoc, List.takeWhile_append_dropWhile]
    · cases d with
      | failure message | pause => simp [bytes, Delivery.bytes]
      | interruption =>
        have := ih []
        simp_all [bytes, Delivery.bytes]
      | data bs =>
        have := ih bs
        simp_all [bytes, Delivery.bytes]

theorem all_of_dropWhile_eq_nil {p : UInt8 → Bool} {bytes : List UInt8}
    (h : bytes.dropWhile p = []) : ∀ b ∈ bytes, p b = true := by
  have whole : bytes.takeWhile p ++ bytes.dropWhile p = bytes := List.takeWhile_append_dropWhile
  rw [h, List.append_nil] at whole
  rw [← whole]
  exact fun b hb => List.all_eq_true.mp List.all_takeWhile b hb

/-- Only bytes that satisfy the condition are taken. -/
theorem spanFrom_taken (p : UInt8 → Bool) (fetched : List UInt8) (pending : List Delivery) :
    ∀ b ∈ (spanFrom p fetched pending).taken, p b = true := by
  induction pending generalizing fetched with
  | nil =>
    unfold spanFrom
    split
    · exact fun b hb => List.all_eq_true.mp List.all_takeWhile b hb
    · next h => exact all_of_dropWhile_eq_nil h
  | cons d more ih =>
    unfold spanFrom
    split
    · exact fun b hb => List.all_eq_true.mp List.all_takeWhile b hb
    · next h =>
      have front : ∀ b ∈ fetched, p b = true := all_of_dropWhile_eq_nil h
      cases d with
      | failure message | pause => exact front
      | interruption =>
        intro b hb
        rcases List.mem_append.mp hb with hb | hb
        · exact front b hb
        · exact ih [] b hb
      | data bs =>
        intro b hb
        rcases List.mem_append.mp hb with hb | hb
        · exact front b hb
        · exact ih bs b hb

/-- A byte that stops a span does not satisfy the condition and is the next one of the stream. -/
theorem spanFrom_stop {p : UInt8 → Bool} {fetched : List UInt8} {pending : List Delivery}
    {b : UInt8} (h : (spanFrom p fetched pending).stop = .byte b) :
    p b = false ∧ ∃ bs, (spanFrom p fetched pending).rest.fetched = b :: bs := by
  induction pending generalizing fetched with
  | nil =>
    unfold spanFrom at h ⊢
    split
    · next c rest hc =>
      have hne : fetched.dropWhile p ≠ [] := by simp [hc]
      have hhead := List.head_dropWhile_not p hne
      simp_all
    · simp_all
  | cons d more ih =>
    unfold spanFrom at h ⊢
    split
    · next c rest hc =>
      have hne : fetched.dropWhile p ≠ [] := by simp [hc]
      have hhead := List.head_dropWhile_not p hne
      simp_all
    · next hc =>
      cases d with
      | failure message | pause =>
        simp only [hc] at h
        exact nomatch h
      | interruption =>
        simp only [hc] at h
        exact ih h
      | data bs =>
        simp only [hc] at h
        exact ih h

/-- A stream that has been read to its end has nothing left. -/
theorem spanFrom_finished {p : UInt8 → Bool} {fetched : List UInt8} {pending : List Delivery}
    (h : (spanFrom p fetched pending).stop = .finished) :
    (spanFrom p fetched pending).rest = {} := by
  induction pending generalizing fetched with
  | nil =>
    unfold spanFrom at h ⊢
    split
    · next found =>
      simp only [found] at h
      exact nomatch h
    · rfl
  | cons d more ih =>
    unfold spanFrom at h ⊢
    split
    · next found =>
      simp only [found] at h
      exact nomatch h
    · next none_left =>
      simp only [none_left] at h
      cases d with
      | failure message | pause => exact nomatch h
      | interruption => exact ih h
      | data bs => exact ih h

theorem span_bytes (p : UInt8 → Bool) (input : Input) :
    (input.span p).taken ++ (input.span p).rest.bytes = input.bytes :=
  spanFrom_bytes p input.fetched input.pending

theorem span_taken {p : UInt8 → Bool} {input : Input} {b : UInt8} (h : b ∈ (input.span p).taken) :
    p b = true :=
  spanFrom_taken p input.fetched input.pending b h

theorem span_stop {p : UInt8 → Bool} {input : Input} {b : UInt8}
    (h : (input.span p).stop = .byte b) :
    p b = false ∧ ∃ bs, (input.span p).rest.fetched = b :: bs :=
  spanFrom_stop h

theorem span_finished {p : UInt8 → Bool} {input : Input} (h : (input.span p).stop = .finished) :
    (input.span p).rest = {} :=
  spanFrom_finished h

/-- Reading never adds to a stream. -/
theorem unread_span_add (p : UInt8 → Bool) (input : Input) :
    (input.span p).taken.length + (input.span p).rest.unread = input.unread := by
  rw [unread, unread, ← span_bytes p input, List.length_append]

end Input

end Whitespace
