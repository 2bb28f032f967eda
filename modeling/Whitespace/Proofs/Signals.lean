import Whitespace.Reader

/-!
# What a source signals

How the bytes of a source are delivered, and what stands between its tokens, makes no difference to
a reader.  It matters only which tokens, which failures and which pauses come, and in which order:
these are the *signals* of a stream.  A reader goes through them one by one (`Reader.next_spec`).

## Main definitions

* `Input.signals` — the tokens, failures and pauses of a stream, in order.
* `Signal.Ends signals rest` — the signals are at their end, or at a pause.
* `Delivery.stop?` — what a delivery stops a reading with.
* `Input.Reliable` — no failure and no pause is to come; then the signals are the significant bytes
  (`Input.Reliable.signals_eq`).
-/

namespace Whitespace

/-- What a stream has to tell when comments are left out. -/
inductive Signal where
  | token (t : Token)
  | failure (message : String)
  | pause
  deriving DecidableEq, Repr

/-- The end of a stream, or a pause and the signals behind it. -/
inductive Signal.Ends : List Signal → List Signal → Prop where
  | finished : Ends [] []
  | pause (rest : List Signal) : Ends (.pause :: rest) rest

/-- What is not at a pause is at the end. -/
theorem Signal.Ends.eq_nil {signals rest : List Signal} (h : Ends signals rest)
    (no_pause : .pause ∉ signals) : signals = [] := by
  cases h with
  | finished => rfl
  | pause rest => exact absurd List.mem_cons_self no_pause

/-- The signals of a delivery. -/
def Delivery.signals : Delivery → List Signal
  | data bytes => (significant bytes).map .token
  | failure message => [.failure message]
  | pause => [.pause]
  | interruption => []

/-- What a delivery stops a reading with, whatever is read. -/
@[simp] def Delivery.stop? : Delivery → Option Input.Stop
  | failure message => some (.failure message)
  | pause => some .pause
  | data _ | interruption => none

namespace Input

/-- The signals of a stream. -/
def signals (input : Input) : List Signal :=
  (significant input.fetched).map .token ++ input.pending.flatMap Delivery.signals

/-- No failure and no pause is to come: the stream ends where it seems to. -/
def Reliable (input : Input) : Prop :=
  ∀ d ∈ input.pending, d.stop? = none

theorem reliable_ofBytes (bytes : List UInt8) : (ofBytes bytes).Reliable := by
  simp [Reliable, ofBytes]

@[simp] theorem bytes_ofBytes (data : List UInt8) : (ofBytes data).bytes = data := by
  simp [bytes, ofBytes, Delivery.bytes]

/-- Without failures and pauses, the signals are the significant bytes. -/
theorem Reliable.signals_eq {input : Input} (reliable : input.Reliable) :
    input.signals = (significant input.bytes).map .token := by
  cases input with
  | mk fetched pending =>
    simp only [signals, bytes, significant_append, List.map_append, List.append_cancel_left_eq]
    induction pending with
    | nil => rfl
    | cons d more ih =>
      have rest := ih fun d later => reliable d (List.mem_cons_of_mem _ later)
      have here := reliable d List.mem_cons_self
      rw [List.flatMap_cons, List.flatMap_cons, significant_append, List.map_append, rest]
      cases d with
      | data bytes | interruption => rfl
      | failure message | pause => cases here

/-- A stream that signals tokens only does not fail or pause. -/
theorem reliable_of_signals {input : Input} {tokens : List Token}
    (signals : input.signals = tokens.map .token) : input.Reliable := by
  intro d pending
  have signalled : ∀ s ∈ d.signals, s ∈ tokens.map Signal.token := by
    rw [← signals]
    exact fun s member => List.mem_append_right _ (List.mem_flatMap.mpr ⟨d, pending, member⟩)
  cases d with
  | data bytes | interruption => rfl
  | failure message | pause =>
    obtain ⟨t, -, wrong⟩ := List.mem_map.mp (signalled _ (List.mem_singleton_self _))
    cases wrong

/-- A pause that is signalled is to come. -/
theorem pause_of_signals {input : Input} (signalled : .pause ∈ input.signals) :
    .pause ∈ input.pending := by
  rcases List.mem_append.mp signalled with fetched | pending
  · obtain ⟨t, -, wrong⟩ := List.mem_map.mp fetched
    cases wrong
  · obtain ⟨d, member, signalled⟩ := List.mem_flatMap.mp pending
    cases d with
    | pause => exact member
    | data bytes =>
      obtain ⟨t, -, wrong⟩ := List.mem_map.mp signalled
      cases wrong
    | failure message =>
      cases List.mem_singleton.mp signalled
    | interruption => cases signalled

end Input

namespace Reader

/-- The signals that a reader has before it. -/
def signals (r : Reader) : List Signal :=
  r.input.signals

/-- The bytes that a reader passes over. -/
def isComment (b : UInt8) : Bool :=
  (Token.ofByte? b).isNone

/-- Passing over a comment loses no token. -/
theorem significant_dropWhile (bytes : List UInt8) :
    significant (bytes.dropWhile isComment) = significant bytes := by
  induction bytes with
  | nil => rfl
  | cons b bytes ih =>
    by_cases comment : isComment b = true
    · rw [List.dropWhile_cons_of_pos comment, ih, significant, significant,
        List.filterMap_cons_none (Option.isNone_iff_eq_none.mp comment)]
    · rw [List.dropWhile_cons_of_neg comment]

/-- What the signals of a stream are, once a comment has been passed over. -/
def behind (comment : Input.Span) : List Signal :=
  match comment.stop with
  | .byte _ => comment.rest.signals
  | .failure message => .failure message :: comment.rest.signals
  | .pause => .pause :: comment.rest.signals
  | .finished => []

/-- Passing over a comment loses no signal. -/
theorem spanFrom_signals (fetched : List UInt8) (pending : List Delivery) :
    (Input.mk fetched pending).signals = behind (Input.spanFrom isComment fetched pending) := by
  induction pending generalizing fetched with
  | nil =>
    have same := significant_dropWhile fetched
    unfold Input.spanFrom
    split
    · next b rest found => simp only [Input.signals, behind, ← same, found]
    · next none_left =>
      simp only [Input.signals, behind, ← same, none_left]
      rfl
  | cons d more ih =>
    have same := significant_dropWhile fetched
    unfold Input.spanFrom
    split
    · next b rest found => simp only [Input.signals, behind, ← same, found]
    · next none_left =>
      rw [Input.signals, ← same, none_left]
      cases d with
      | failure message | pause => rfl
      | interruption => exact ih []
      | data bytes => exact ih bytes

/-- What a call comes to when a comment has been passed over, and how it counts. -/
theorem next_cases (r : Reader) :
    (∃ taken, r.input.span isComment = ⟨taken, .finished, {}⟩ ∧
      r.next = (.finished, ⟨{}, r.offset + taken.length, r.position⟩)) ∨
    (∃ taken rest, r.input.span isComment = ⟨taken, .pause, rest⟩ ∧
      r.next = (.finished, ⟨rest, r.offset + taken.length, r.position⟩)) ∨
    (∃ taken message rest, r.input.span isComment = ⟨taken, .failure message, rest⟩ ∧
      r.next = (.failure message, ⟨rest, r.offset + taken.length, r.position⟩)) ∨
    ∃ taken t bytes pending,
      r.input.span isComment = ⟨taken, .byte t.byte, ⟨t.byte :: bytes, pending⟩⟩ ∧
      r.next = (.token t, ⟨⟨bytes, pending⟩, r.offset + taken.length + 1, r.position + 1⟩) := by
  have ended : (r.input.span isComment).stop = .finished → (r.input.span isComment).rest = {} :=
    Input.span_finished
  have stopped : ∀ b, (r.input.span isComment).stop = .byte b → _ := fun b => Input.span_stop
  rcases comment : r.input.span isComment with ⟨taken, stop, rest⟩
  rw [comment] at ended stopped
  have unfolded : (r.input.span fun b => (Token.ofByte? b).isNone) = ⟨taken, stop, rest⟩ := comment
  simp only [next, unfolded]
  cases stop with
  | finished =>
    obtain rfl : rest = {} := ended rfl
    exact .inl ⟨taken, rfl, rfl⟩
  | pause => exact .inr (.inl ⟨taken, rest, rfl, rfl⟩)
  | failure message => exact .inr (.inr (.inl ⟨taken, message, rest, rfl, rfl⟩))
  | byte b =>
    obtain ⟨shown, bytes, fetched⟩ := stopped b rfl
    obtain ⟨t, found⟩ := Option.isSome_iff_exists.mp (Option.isNone_eq_false_iff.mp shown)
    obtain rfl := Token.ofByte?_eq_some_iff.mp found
    rcases rest with ⟨_, pending⟩
    obtain rfl := fetched
    simp only [found]
    exact .inr (.inr (.inr ⟨taken, t, bytes, pending, rfl, rfl⟩))

/-- **A reader goes through its signals one by one.** -/
theorem next_spec (r : Reader) :
    match r.next with
    | (.token t, r') => r.signals = .token t :: r'.signals ∧ r'.position = r.position + 1
    | (.failure message, r') =>
      r.signals = .failure message :: r'.signals ∧ r'.position = r.position
    | (.finished, r') => Signal.Ends r.signals r'.signals ∧ r'.position = r.position := by
  have passed : r.signals = behind (r.input.span isComment) :=
    spanFrom_signals r.input.fetched r.input.pending
  obtain ⟨taken, comment, next⟩ | ⟨taken, rest, comment, next⟩ |
    ⟨taken, message, rest, comment, next⟩ | ⟨taken, t, bytes, pending, comment, next⟩ :=
      r.next_cases
  · rw [comment] at passed
    rw [next, passed]
    exact ⟨.finished, rfl⟩
  · rw [comment] at passed
    rw [next, passed]
    exact ⟨.pause rest.signals, rfl⟩
  · rw [comment] at passed
    rw [next]
    exact ⟨passed, rfl⟩
  · rw [comment] at passed
    rw [next]
    have signals : (Input.mk (t.byte :: bytes) pending).signals =
        .token t :: (Input.mk bytes pending).signals := by
      rw [Input.signals, significant_cons (Token.ofByte?_byte t)]
      rfl
    exact ⟨passed.trans signals, rfl⟩

variable {r r' : Reader}

theorem signals_of_token {t : Token} (h : r.next = (.token t, r')) :
    r.signals = .token t :: r'.signals ∧ r'.position = r.position + 1 := by
  have spec := r.next_spec
  rwa [h] at spec

theorem signals_of_failure {message : String} (h : r.next = (.failure message, r')) :
    r.signals = .failure message :: r'.signals ∧ r'.position = r.position := by
  have spec := r.next_spec
  rwa [h] at spec

theorem signals_of_finished (h : r.next = (.finished, r')) :
    Signal.Ends r.signals r'.signals ∧ r'.position = r.position := by
  have spec := r.next_spec
  rwa [h] at spec

end Reader

end Whitespace
