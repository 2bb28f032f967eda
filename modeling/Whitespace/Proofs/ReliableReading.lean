import Mathlib.Data.List.TakeWhile
import Whitespace.Machine.Execute
import Whitespace.Proofs.Signals
import Whitespace.Proofs.TextRoundTrip

/-!
# Reading from reliable streams

What is read from a stream that does not fail or pause depends on its bytes alone, not on how they
are delivered: a span is the longest beginning of the bytes that satisfies the condition
(`Input.Offers.span`).  So an operation is specified by the bytes it is offered, what it returns,
and the bytes it leaves (`Reading.Reads`).  The specification of a number and of a character is that
what is spelled is read, and nothing behind it is touched (`Reading.reads_number`,
`Reading.reads_character`).

## Main definitions

* `Input.Offers input bytes` — the stream is reliable and has exactly these bytes.
* `Reading.Reads reading bytes a rest` — offered these bytes, the operation returns `a` and leaves
  `rest`.
-/

namespace Whitespace

namespace Input

/-- The stream is reliable, and these are its bytes. -/
def Offers (input : Input) (bytes : List UInt8) : Prop :=
  input.Reliable ∧ input.bytes = bytes

/-- A span over a reliable stream ends at a byte or with the stream. -/
theorem spanFrom_reliable (p : UInt8 → Bool) (fetched : List UInt8) {pending : List Delivery}
    (reliable : Reliable ⟨fetched, pending⟩) :
    (spanFrom p fetched pending).rest.Reliable ∧
      ((spanFrom p fetched pending).stop = .finished ∨
        ∃ b, (spanFrom p fetched pending).stop = .byte b) := by
  induction pending generalizing fetched with
  | nil =>
    unfold spanFrom
    split
    · exact ⟨reliable, .inr ⟨_, rfl⟩⟩
    · exact ⟨reliable, .inl rfl⟩
  | cons d more ih =>
    have here := reliable d List.mem_cons_self
    have later : ∀ bytes, Reliable ⟨bytes, more⟩ := fun _ d member =>
      reliable d (List.mem_cons_of_mem _ member)
    unfold spanFrom
    split
    · exact ⟨reliable, .inr ⟨_, rfl⟩⟩
    · cases d with
      | failure message | pause => cases here
      | interruption => exact ih [] (later [])
      | data bytes => exact ih bytes (later bytes)

variable {input : Input} {bytes : List UInt8}

/-- **A span over a reliable stream** is the longest beginning of its bytes that satisfies
the condition; the next byte, if there is one, stops it. -/
theorem Offers.span (offers : input.Offers bytes) (p : UInt8 → Bool) :
    (input.span p).taken = bytes.takeWhile p ∧ (input.span p).rest.Offers (bytes.dropWhile p) ∧
      (input.span p).stop =
        match bytes.dropWhile p with
        | [] => .finished
        | b :: _ => .byte b := by
  obtain ⟨reliable, rfl⟩ := offers
  obtain ⟨reliable', stopped⟩ := spanFrom_reliable p input.fetched reliable
  have whole := input.span_bytes p
  have taken : ∀ b ∈ (input.span p).taken, p b = true := fun _ => span_taken
  obtain finished | ⟨b, stopped⟩ := stopped
  · have ended : (input.span p).rest.bytes = [] := by
      rw [span_finished finished]
      rfl
    rw [ended, List.append_nil] at whole
    have drop : input.bytes.dropWhile p = [] := by
      rw [← whole]
      exact List.dropWhile_eq_nil_iff.mpr taken
    rw [drop, ← whole]
    exact ⟨(List.takeWhile_eq_self_iff.mpr taken).symm, ⟨reliable', ended⟩, finished⟩
  · obtain ⟨unfit, rest, fetched⟩ := span_stop stopped
    obtain ⟨more, shown⟩ : ∃ more, (input.span p).rest.bytes = b :: more := by
      rw [Input.bytes, fetched]
      exact ⟨_, rfl⟩
    have drop : input.bytes.dropWhile p = b :: more := by
      rw [← whole, List.dropWhile_append_of_pos taken, shown,
        List.dropWhile_cons_of_neg (by simp [unfit])]
    refine ⟨?_, ⟨reliable', shown.trans drop.symm⟩, ?_⟩
    · rw [← whole, List.takeWhile_append_of_pos taken, shown,
        List.takeWhile_cons_of_neg (by simp [unfit]), List.append_nil]
    · rw [drop]
      exact stopped

/-- A byte that a reliable stream offers is seen, and can be read. -/
theorem Offers.peek {b : UInt8} (offers : input.Offers (b :: bytes)) :
    ∃ input', Reading.peek input = .ok (some b) input' ∧ input'.Offers (b :: bytes) ∧
      input'.advance.Offers bytes := by
  obtain ⟨-, rest, stop⟩ := offers.span fun _ => false
  have same : (b :: bytes).dropWhile (fun _ => false) = b :: bytes := rfl
  rw [same] at rest stop
  obtain ⟨-, more, fetched⟩ := span_stop stop
  refine ⟨(input.span fun _ => false).rest, ?_, rest, rest.1, ?_⟩
  · rw [Reading.peek, stop]
  · have bytes := rest.2
    rw [Input.bytes, fetched] at bytes
    rw [advance, Input.bytes, fetched]
    exact (List.cons.inj bytes).2

end Input

namespace Reading

variable {α β : Type} {bytes middle rest : List UInt8} {a : α} {c : β}

/-- Offered some bytes by a reliable stream, an operation returns this and leaves the rest. -/
def Reads (reading : Reading α) (bytes : List UInt8) (a : α) (rest : List UInt8) : Prop :=
  ∀ input : Input, input.Offers bytes →
    ∃ input', reading input = .ok a input' ∧ input'.Offers rest

theorem reads_pure (a : α) (bytes : List UInt8) : Reads (pure a : Reading α) bytes a bytes :=
  fun input offers => ⟨input, rfl, offers⟩

theorem bind_ok {reading : Reading α} (more : α → Reading β) {input input' : Input}
    (first : reading input = .ok a input') : (reading >>= more) input = more a input' := by
  change EStateM.bind reading more input = _
  rw [EStateM.bind, first]

/-- **One operation after another** goes on with what the first leaves. -/
theorem reads_bind {reading : Reading α} {more : α → Reading β}
    (first : Reads reading bytes a middle)
    (second : Reads (more a) middle c rest) : Reads (reading >>= more) bytes c rest := by
  intro input offers
  obtain ⟨input', returned, left⟩ := first input offers
  rw [bind_ok more returned]
  exact second input' left

theorem reads_takeWhile (p : UInt8 → Bool) (bytes : List UInt8) :
    Reads (takeWhile p) bytes (bytes.takeWhile p) (bytes.dropWhile p) := by
  intro input offers
  obtain ⟨taken, rest, stop⟩ := offers.span p
  refine ⟨(input.span p).rest, ?_, rest⟩
  simp only [takeWhile, stop, taken]
  cases bytes.dropWhile p <;> rfl

variable {b : UInt8}

/-- Bytes that satisfy a condition are read up to one that does not. -/
theorem reads_span {p : UInt8 → Bool} {front : List UInt8} (fit : ∀ b ∈ front, p b = true)
    (unfit : p b = false) (rest : List UInt8) :
    Reads (takeWhile p) (front ++ b :: rest) front (b :: rest) := by
  have spec := reads_takeWhile p (front ++ b :: rest)
  rwa [List.takeWhile_append_of_pos fit, List.dropWhile_append_of_pos fit,
    List.takeWhile_cons_of_neg (by simp [unfit]), List.dropWhile_cons_of_neg (by simp [unfit]),
    List.append_nil] at spec

variable {more : Option UInt8 → Reading β}

/-- A byte that is looked at and read. -/
theorem reads_peek_advance {after : Unit → Reading β} (goes : more (some b) = advance >>= after)
    (second : Reads (after ()) bytes c rest) : Reads (peek >>= more) (b :: bytes) c rest := by
  intro input offers
  obtain ⟨input', seen, -, advanced⟩ := offers.peek
  have read : advance input' = .ok () input'.advance := rfl
  rw [bind_ok more seen, goes, bind_ok after read]
  exact second input'.advance advanced

/-! ## Numbers -/

/-- The bytes of a word in decimal. -/
def numeral (v : Int64) : List UInt8 :=
  (Decimal.render v.toInt).flatMap String.utf8EncodeChar

/-- A sign or a digit is one byte, and it does not separate numbers. -/
theorem isSpacing_of_mem_numeral {v : Int64} {b : UInt8} (member : b ∈ numeral v) :
    isSpacing b = false := by
  obtain ⟨c, occurs, member⟩ := List.mem_flatMap.mp member
  have bounds : 0x2D ≤ c.toNat ∧ c.toNat < 0x80 := by
    obtain rfl | digit := Decimal.mem_render occurs
    · decide
    · simp only [Char.isDigit, Bool.and_eq_true, decide_eq_true_eq, ge_iff_le,
        UInt32.le_iff_toNat_le] at digit
      have least : 0x30 ≤ c.toNat := digit.1
      have greatest : c.toNat ≤ 0x39 := digit.2
      omega
  have single : String.utf8EncodeChar c = [UInt8.ofNat c.toNat] :=
    if_pos (Nat.le_of_lt_succ bounds.2)
  rw [single, List.mem_singleton] at member
  have number : b.toNat = c.toNat := by
    rw [member]
    exact UInt8.toNat_ofNat_of_lt' (show c.toNat < 0x100 by omega)
  simp only [isSpacing, Bool.or_eq_false_iff, beq_eq_false_iff_ne, ne_eq, ← UInt8.toNat_inj, number]
  simp
  omega

theorem numeral_ne_nil (v : Int64) : numeral v ≠ [] := by
  obtain ⟨c, cs, digits⟩ := List.exists_cons_of_ne_nil (Decimal.render_ne_nil v.toInt)
  obtain ⟨first, more, -, spelled, -⟩ := Utf8.utf8EncodeChar_owed c
  rw [numeral, digits, List.flatMap_cons, spelled]
  exact List.cons_ne_nil _ _

/-- **A number on a line of its own is read**, with the end of the line and nothing behind it. -/
theorem reads_number (v : Int64) (rest : List UInt8) :
    Reads number (numeral v ++ 0x0A :: rest) v rest := by
  obtain ⟨b, bs, digits⟩ := List.exists_cons_of_ne_nil (numeral_ne_nil v)
  have first : isSpacing b = false := isSpacing_of_mem_numeral (digits ▸ List.mem_cons_self)
  have token : ∀ b ∈ numeral v, (!isSpacing b) = true := by
    intro b member
    rw [isSpacing_of_mem_numeral member]
    rfl
  have text : Utf8.decode (numeral v) = Decimal.render v.toInt := Utf8.decode_flatMap _
  have no_space : Reads (takeWhile isSpacing) (numeral v ++ 0x0A :: rest) []
      (numeral v ++ 0x0A :: rest) := by
    rw [digits]
    exact reads_span (List.forall_mem_nil _) first _
  rw [number]
  refine reads_bind no_space (reads_bind (reads_span token rfl rest) ?_)
  rw [if_neg (by simp [numeral_ne_nil])]
  refine reads_bind (reads_span (List.forall_mem_nil _) rfl rest) ?_
  refine reads_peek_advance (if_pos rfl) ?_
  simp only [text, Decimal.word?_render]
  exact reads_pure v rest

/-! ## Characters -/

/-- The rest of a character is read as far as it is owed. -/
theorem reads_characterFrom {bounds : List Utf8.Bounds} {tail : List UInt8}
    (paid : List.Forall₂ (fun bound b => bound.admits b = true) bounds tail)
    (narrow : ∀ bound ∈ bounds, 0x80 ≤ bound.least ∧ bound.greatest ≤ 0xBF)
    (read rest : List UInt8) :
    Reads (characterFrom read bounds.length) (tail ++ rest)
      ((Utf8.scalar? (read ++ tail)).getD Utf8.replacement) rest := by
  induction paid generalizing read with
  | nil =>
    rw [List.append_nil]
    exact reads_pure _ rest
  | @cons bound b bounds tail admitted later ih =>
    have continues : isContinuation b = true :=
      isContinuation_of_admits (narrow bound List.mem_cons_self) admitted
    have more := ih (fun bound member => narrow bound (List.mem_cons_of_mem _ member)) (read ++ [b])
    rw [List.append_assoc, List.singleton_append] at more
    rw [List.length_cons, characterFrom]
    exact reads_peek_advance (if_pos continues) more

/-- **A character is read**, and nothing behind it. -/
theorem reads_character (c : Char) (rest : List UInt8) :
    Reads character (String.utf8EncodeChar c ++ rest) c rest := by
  obtain ⟨first, tail, bounds, spelled, owes, paid⟩ := Utf8.utf8EncodeChar_owed c
  obtain ⟨announced, narrow⟩ := owed_spec owes
  have whole := Utf8.scalar?_utf8EncodeChar c
  have more := reads_characterFrom paid narrow [first] rest
  rw [spelled] at whole ⊢
  rw [List.singleton_append, whole, Option.getD_some, ← announced] at more
  rw [character]
  exact reads_peek_advance rfl more

end Reading

end Whitespace
