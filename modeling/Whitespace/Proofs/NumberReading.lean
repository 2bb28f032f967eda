import Whitespace.Proofs.ByteByByte
import Whitespace.Proofs.DecimalTokens

/-!
# Reading a number

What a reader of numbers does is told by the bytes that are delivered before the first failure or
pause: white space, a token, blanks, and what follows (`Passage`).  It reads the first three and a
line feed that comes next, whether or not the token is a number, unless the failure comes before it
has seen where they end (`number_exact`).

Behind the line feed nothing is looked at: what is left is the stream as it was delivered
(`Input.Leaves`), whatever comes.

## Main definitions

* `Passage bytes` — a division of the bytes, in which each part goes as far as it can.
* `Verdict token rest result` — the word that the token denotes, or an error with its text; the
  stream `rest` is left.
-/

namespace Whitespace.Reading

open Input

/-- What is read for a number, but for the end of the line: white space, a token, and blanks. -/
structure Entry where
  spacing : List UInt8
  token : List UInt8
  blanks : List UInt8
  isSpacing_of_mem : ∀ b ∈ spacing, isSpacing b = true
  not_isSpacing_of_mem : ∀ b ∈ token, isSpacing b = false
  isBlank_of_mem : ∀ b ∈ blanks, isBlank b = true

/-- The bytes of an entry. -/
def Entry.bytes (e : Entry) : List UInt8 :=
  e.spacing ++ (e.token ++ e.blanks)

/-- Bytes that are an entry and what follows.  Each part of the entry goes as far as it can. -/
structure Passage (bytes : List UInt8) extends Entry where
  rest : List UInt8
  whole : toEntry.bytes ++ rest = bytes
  nil_of_token_nil : token = [] → blanks ++ rest = []
  isSpacing_of_head : ∀ b, (blanks ++ rest).head? = some b → isSpacing b = true
  not_isBlank_of_head : ∀ b, rest.head? = some b → isBlank b = false

/-- What a token comes to, with the stream left behind it: the word that it denotes, and an error
that shows its text if it denotes no number or one outside the range of words. -/
structure Verdict (token : List UInt8) (rest : Input) (result : EStateM.Result Cause Input Int64) :
    Prop where
  word : ∀ v : Int64, result = .ok v rest ↔ Decimal.Denotes token v.toInt
  malformed :
    (∀ v : Int, Decimal.Denotes token v → v < -0x8000000000000000 ∨ 0x7FFFFFFFFFFFFFFF < v) →
    result = .error (.malformedNumber (Utf8.decode token)) rest

namespace Passage

variable {bytes : List UInt8}

/-- What is left when the entry has been read, and a line feed that comes next. -/
def left (p : Passage bytes) : List UInt8 :=
  if p.rest.head? = some 0x0A then p.rest.tail else p.rest

/-- All bytes are divided in this way. -/
def of (bytes : List UInt8) : Passage bytes where
  spacing := bytes.takeWhile isSpacing
  token := (bytes.dropWhile isSpacing).takeWhile fun b => !isSpacing b
  blanks := ((bytes.dropWhile isSpacing).dropWhile fun b => !isSpacing b).takeWhile isBlank
  rest := ((bytes.dropWhile isSpacing).dropWhile fun b => !isSpacing b).dropWhile isBlank
  isSpacing_of_mem b := List.mem_takeWhile_imp
  not_isSpacing_of_mem b member := by simpa using List.mem_takeWhile_imp member
  isBlank_of_mem b := List.mem_takeWhile_imp
  whole := by simp [Entry.bytes, List.takeWhile_append_dropWhile]
  nil_of_token_nil none := by
    rw [List.takeWhile_append_dropWhile]
    cases word : bytes.dropWhile isSpacing with
    | nil => rfl
    | cons b word' =>
      have unfit : isSpacing b = false := unfit_of_head?_dropWhile (by rw [word, List.head?_cons])
      simp [word, unfit] at none
  isSpacing_of_head b first := by
    rw [List.takeWhile_append_dropWhile] at first
    simpa using unfit_of_head?_dropWhile first
  not_isBlank_of_head b first := unfit_of_head?_dropWhile first

end Passage

/-! ## The end of the line -/

/-- Tells what a token comes to. -/
def tell (token : List UInt8) : Reading Int64 :=
  let text := Utf8.decode token
  match Decimal.word? text with
  | some value => pure value
  | none => throw (.malformedNumber text)

/-- Reads the rest of the line behind a token, and tells what the token comes to. -/
def lineEnd (token : List UInt8) : Reading Int64 := do
  let _ ← takeWhile isBlank
  if (← peek) == some 0x0A then
    advance
  tell token

/-- A number is read up to its token, and then to the end of the line. -/
theorem number_eq :
    number = (do
      let _ ← takeWhile isSpacing
      let token ← takeWhile fun b => !isSpacing b
      if token.isEmpty then
        throw .endOfInput
      lineEnd token) := by
  rfl

variable {input : Input} {token blanks more : List UInt8} {b : UInt8} {message : String}

/-- What is told about a token is its verdict; the stream is not looked at. -/
theorem verdict_tell (token : List UInt8) (input : Input) :
    Verdict token input (tell token input) := by
  cases read : Decimal.word? (Utf8.decode token) with
  | some v =>
    have told : tell token input = .ok v input := by
      simp only [tell, read]
      rfl
    rw [told]
    refine ⟨fun v' => ?_, fun outside => ?_⟩
    · simp [← Decimal.word?_decode_eq_some_iff, read]
    · have wrong := outside v.toInt (Decimal.word?_decode_eq_some_iff.mp read)
      have least := Int64.le_toInt v
      have greatest := Int64.toInt_lt v
      omega
  | none =>
    have told : tell token input = .error (.malformedNumber (Utf8.decode token)) input := by
      simp only [tell, read]
      rfl
    rw [told]
    refine ⟨fun v' => ?_, fun _ => rfl⟩
    simp [← Decimal.word?_decode_eq_some_iff, read]

theorem lineEnd_failure (blank : ∀ b ∈ input.delivered, isBlank b = true)
    (failure : input.ending = .failure message) :
    lineEnd token input = .error (.io message) input.beyond :=
  bind_error _ (takeWhile_failure blank failure)

theorem lineEnd_end (blank : ∀ b ∈ input.delivered, isBlank b = true)
    (finished : input.ending = .finished) : Verdict token {} (lineEnd token input) := by
  rw [lineEnd, bind_ok _ (takeWhile_end blank finished), bind_ok _ (peek_end rfl (.inr rfl))]
  exact verdict_tell token {}

/-- A line feed behind the blanks is read, any other byte is left. -/
theorem lineEnd_byte (next : input.delivered = blanks ++ b :: more)
    (blank : ∀ b ∈ blanks, isBlank b = true) (unfit : isBlank b = false) :
    ∃ ready, input.Ready blanks b more ready ∧
      Verdict token (if b = 0x0A then ready.advance else ready) (lineEnd token input) := by
  obtain ⟨ready, read, is_ready⟩ := takeWhile_byte next blank unfit
  refine ⟨ready, is_ready, ?_⟩
  rw [lineEnd, bind_ok _ read, bind_ok _ (peek_fetched is_ready.fetched)]
  by_cases feed : b = 0x0A
  · subst feed
    exact verdict_tell token ready.advance
  · have other : (some b == some 0x0A) = false := by simpa using feed
    simp only [other, feed, if_false]
    exact verdict_tell token ready

/-! ## The whole number -/

namespace Passage

variable {bytes : List UInt8}

theorem whole' (p : Passage bytes) : bytes = p.spacing ++ (p.token ++ (p.blanks ++ p.rest)) := by
  simpa [Entry.bytes] using p.whole.symm

theorem not_isSpacing_of_token (p : Passage bytes) :
    ∀ b ∈ p.token, (!isSpacing b) = true := by
  intro b member
  rw [p.not_isSpacing_of_mem b member]
  rfl

end Passage

/-- The white space before a token is read. -/
theorem exists_ready_token (p : Passage input.delivered) (some : p.token ≠ []) :
    ∃ first, takeWhile isSpacing input = .ok p.spacing first ∧
      first.delivered = p.token ++ (p.blanks ++ p.rest) ∧
      ∃ t more, input.Ready p.spacing t more first := by
  obtain ⟨t, ts, token⟩ := List.exists_cons_of_ne_nil some
  have unfit := p.not_isSpacing_of_mem t (token ▸ List.mem_cons_self)
  have next : input.delivered = p.spacing ++ t :: (ts ++ (p.blanks ++ p.rest)) := by
    rw [← List.cons_append, ← token, ← p.whole']
  obtain ⟨first, read, ready⟩ := takeWhile_byte next p.isSpacing_of_mem unfit
  refine ⟨first, read, ?_, t, _, ready⟩
  rw [ready.remains.delivered, token, List.cons_append]

/-- A token is read up to the byte behind it; then comes the end of the line. -/
theorem exists_ready_blanks (p : Passage input.delivered) (some : p.token ≠ [])
    (behind : p.blanks ++ p.rest = b :: more) :
    ∃ second, number input = lineEnd p.token second ∧
      input.Ready (p.spacing ++ p.token) b more second := by
  have closed : isSpacing b = true := p.isSpacing_of_head b (by rw [behind, List.head?_cons])
  obtain ⟨first, read, left, t, rest, ready⟩ := exists_ready_token p some
  rw [behind] at left
  obtain ⟨second, read', ready'⟩ :=
    takeWhile_byte (p := fun b => !isSpacing b) left p.not_isSpacing_of_token (by simp [closed])
  refine ⟨second, ?_, ready.trans ready'⟩
  rw [number_eq, bind_ok _ read, bind_ok _ read', if_neg (by simpa using some)]

/-- **A number is read up to the byte behind it**, and with that if it is a line feed. -/
theorem number_byte (p : Passage input.delivered) (some : p.token ≠ [])
    (next : p.rest = b :: more) :
    ∃ ready, input.Ready p.bytes b more ready ∧
      Verdict p.token (if b = 0x0A then ready.advance else ready) (number input) := by
  obtain ⟨c, cs, behind⟩ : ∃ c cs, p.blanks ++ p.rest = c :: cs :=
    List.exists_cons_of_ne_nil (by simp [next])
  obtain ⟨second, same, ready⟩ := exists_ready_blanks p some behind
  have left : second.delivered = p.blanks ++ b :: more := by
    rw [ready.remains.delivered, ← behind, next]
  have unfit : isBlank b = false := p.not_isBlank_of_head b (by rw [next, List.head?_cons])
  obtain ⟨third, ready', verdict⟩ := lineEnd_byte left p.isBlank_of_mem unfit
  refine ⟨third, ?_, same ▸ verdict⟩
  rw [Entry.bytes, ← List.append_assoc]
  exact ready.trans ready'

/-- **A number is read at the end of the stream.** -/
theorem number_end (p : Passage input.delivered) (some : p.token ≠ []) (ended : p.rest = [])
    (finished : input.ending = .finished) : Verdict p.token {} (number input) := by
  cases behind : p.blanks ++ p.rest with
  | nil =>
    obtain ⟨first, read, left, t, more, ready⟩ := exists_ready_token p some
    rw [behind, List.append_nil] at left
    have read' := takeWhile_end (left ▸ p.not_isSpacing_of_token)
      (ready.remains.ending.trans finished)
    rw [number_eq, bind_ok _ read, bind_ok _ read', left, if_neg (by simpa using some)]
    exact lineEnd_end (List.forall_mem_nil _) rfl
  | cons c cs =>
    obtain ⟨second, same, ready⟩ := exists_ready_blanks p some behind
    rw [same]
    refine lineEnd_end ?_ (ready.remains.ending.trans finished)
    rw [ready.remains.delivered, ← behind, ended, List.append_nil]
    exact p.isBlank_of_mem

/-- Without a token there is nothing but white space. -/
theorem isSpacing_of_token_nil (p : Passage input.delivered) (empty : p.token = []) :
    ∀ b ∈ input.delivered, isSpacing b = true := by
  have whole := p.whole'
  rw [empty, p.nil_of_token_nil empty, List.append_nil, List.append_nil] at whole
  rw [whole]
  exact p.isSpacing_of_mem

/-- **A failure ends the reading** if it comes before it is seen where the number ends. -/
theorem number_failure (p : Passage input.delivered) (early : p.token = [] ∨ p.rest = [])
    (failure : input.ending = .failure message) :
    number input = .error (.io message) input.beyond := by
  by_cases empty : p.token = []
  · exact bind_error _ (takeWhile_failure (isSpacing_of_token_nil p empty) failure)
  · have ended : p.rest = [] := early.resolve_left empty
    cases behind : p.blanks ++ p.rest with
    | nil =>
      obtain ⟨first, read, left, t, more, ready⟩ := exists_ready_token p empty
      rw [behind, List.append_nil] at left
      have failed := takeWhile_failure (left ▸ p.not_isSpacing_of_token)
        (ready.remains.ending.trans failure)
      rw [number_eq, bind_ok _ read, bind_error _ failed, ready.remains.beyond]
    | cons c cs =>
      obtain ⟨second, same, ready⟩ := exists_ready_blanks p empty behind
      rw [same, ← ready.remains.beyond]
      refine lineEnd_failure ?_ (ready.remains.ending.trans failure)
      rw [ready.remains.delivered, ← behind, ended, List.append_nil]
      exact p.isBlank_of_mem

/-- Without a token the end of the stream is met. -/
theorem number_nothing (p : Passage input.delivered) (empty : p.token = [])
    (finished : input.ending = .finished) : number input = .error .endOfInput {} := by
  have read := takeWhile_end (isSpacing_of_token_nil p empty) finished
  have read' : takeWhile (fun b => !isSpacing b) ({} : Input) = .ok [] {} :=
    takeWhile_end (List.forall_mem_nil _) rfl
  rw [number_eq, bind_ok _ read, bind_ok _ read']
  rfl

/-- A blank is white space. -/
theorem isSpacing_of_isBlank {b : UInt8} (blank : isBlank b = true) : isSpacing b = true := by
  simp only [isBlank, isSpacing, Bool.or_eq_true] at blank ⊢
  rcases blank with (space | tab) | ret
  · exact .inl (.inl (.inl (.inl space)))
  · exact .inl (.inl (.inl (.inr tab)))
  · exact .inr ret

/-- An entry with a line feed behind it is the passage of all bytes that begin with it. -/
def Entry.passage (e : Entry) (some : e.token ≠ []) {bytes : List UInt8}
    (whole : e.bytes ++ 0x0A :: more = bytes) : Passage bytes where
  toEntry := e
  rest := 0x0A :: more
  whole := whole
  nil_of_token_nil empty := absurd empty some
  isSpacing_of_head b first := by
    cases blanks : e.blanks with
    | nil =>
      rw [blanks] at first
      cases first
      rfl
    | cons c cs =>
      rw [blanks] at first
      cases first
      exact isSpacing_of_isBlank (e.isBlank_of_mem b (blanks ▸ List.mem_cons_self))
  not_isBlank_of_head b first := by
    cases first
    rfl

/-- **A number and the end of its line are read**, and nothing behind the line feed is looked at. -/
theorem number_line (e : Entry) (some : e.token ≠ []) {rest : Input}
    (left : input.Leaves (e.bytes ++ [0x0A]) rest) : Verdict e.token rest (number input) := by
  have whole : e.bytes ++ 0x0A :: rest.delivered = input.delivered := by
    rw [left.delivered, List.append_assoc, List.singleton_append]
  obtain ⟨ready, is_ready, verdict⟩ := number_byte (e.passage some whole) some rfl
  have behind := leaves_advance is_ready.fetched (is_ready.leaves [] rest left)
  rw [behind.eq_of_nil]
  exact verdict

/-- **Reading a number, completely.**  A failure is thrown if it comes before the token and the
blanks behind it are seen to end; without a token, the end of the stream is met.  Otherwise the
token comes to its verdict, and the entry is read with a line feed that comes next.  If there is
one, the verdict and the stream that is left do not depend on what comes behind it.

A pause before the entry is seen to end is left aside: it ends only the part of the entry in which
it comes. -/
theorem number_exact (input : Input) (p : Passage input.delivered) :
    (p.token = [] ∨ p.rest = [] → ∀ message, input.ending = .failure message →
      number input = .error (.io message) input.beyond) ∧
    (p.token = [] → input.ending = .finished → number input = .error .endOfInput {}) ∧
    (p.token ≠ [] → p.rest ≠ [] ∨ input.ending = .finished →
      ∃ rest, Verdict p.token rest (number input) ∧ input.Remains p.left rest) ∧
    ∀ (e : Entry) (rest : Input), e.token ≠ [] → input.Leaves (e.bytes ++ [0x0A]) rest →
      Verdict e.token rest (number input) := by
  refine ⟨fun early message => number_failure p early, number_nothing p, fun some ended => ?_,
    fun e rest some => number_line e some⟩
  cases next : p.rest with
  | nil =>
    have finished : input.ending = .finished := ended.resolve_left (absurd next)
    refine ⟨{}, number_end p some next finished, ?_, finished.symm, ?_⟩
    · simp [Passage.left, next]
      rfl
    · rw [beyond_of_finished finished]
      rfl
  | cons b more =>
    obtain ⟨ready, is_ready, verdict⟩ := number_byte p some next
    refine ⟨_, verdict, ?_⟩
    by_cases feed : b = 0x0A
    · simpa [Passage.left, next, feed] using is_ready.advance
    · simpa [Passage.left, next, feed] using is_ready.remains

/-- A number is read over an interruption, and the failure behind its line is not met. -/
theorem number_exact_line :
    number ⟨[], [.data [0x20, 0x2B, 0x37, 0x09], .interruption, .data [0x0A, 0x78], .failure ""]⟩ =
      .ok 7 ⟨[0x78], [.failure ""]⟩ := by
  obtain ⟨-, -, -, line⟩ := number_exact
    ⟨[], [.data [0x20, 0x2B, 0x37, 0x09], .interruption, .data [0x0A, 0x78], .failure ""]⟩ (.of _)
  have entry := leaves_fetched [0x20, 0x2B, 0x37, 0x09] [] [.interruption, .data [0x0A, 0x78],
    .failure ""]
  have feed := Leaves.interruption (.data (.fetched 0x0A (.refl ⟨[0x78], [.failure ""]⟩)))
  have verdict := line
    ⟨[0x20], [0x2B, 0x37], [0x09], by simp [isSpacing], by simp [isSpacing], by simp [isBlank]⟩
    _ (List.cons_ne_nil _ _) (.data (entry.append feed))
  have denotes : Decimal.Denotes [0x2B, 0x37] 7 :=
    @Decimal.Denotes.plus [0x37] (List.cons_ne_nil _ _) (by simp [Decimal.isDigitByte])
  exact (verdict.word 7).mpr denotes

end Whitespace.Reading
