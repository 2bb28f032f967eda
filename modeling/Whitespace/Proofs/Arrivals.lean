import Whitespace.Proofs.Signals

/-!
# Reading whole scripts

A script of deliveries is a row of arrivals, bytes, failures and pauses, for interruptions bring
nothing and it does not matter how bytes are divided into deliveries.  A reader takes one arrival
after another and counts the bytes, until it has met a token, which it counts too, a failure or a
pause (`scan`, `Reader.next_scan`).

Over any number of calls it therefore returns the tokens and the failures of the script in order,
nothing at a pause, and in the end nothing more; its offset is the number of bytes up to what it has
returned, and its position the number of tokens (`Reader.reading_of_script`).  The invariant of the
calls is what has been passed (`Reader.Passed`).

## Main definitions

* `Input.arrivals` — the bytes, the failures and the pauses of a stream, in order.
* `scan arrivals offset position` — reads one arrival after another.
* `Reader.items n r`, `Reader.after n r` — what the next `n` calls return, and the reader behind
  them.
* `Reader.Passed source n read r` — `n` calls have passed the arrivals `read`, and counted them.
-/

namespace Whitespace

/-- What arrives from a stream. -/
inductive Arrival where
  | byte (b : UInt8)
  | failure (message : String)
  | pause
  deriving DecidableEq, Repr

namespace Arrival

/-- What an arrival signals; a byte of a comment signals nothing. -/
def signal? : Arrival → Option Signal
  | byte b => (Token.ofByte? b).map .token
  | failure message => some (.failure message)
  | pause => some .pause

def isByte : Arrival → Bool
  | byte _ => true
  | failure _ | pause => false

end Arrival

/-- What a reader returns for a signal; a pause is taken for the end. -/
def Signal.item : Signal → Reader.Item
  | token t => .token t
  | failure message => .failure message
  | pause => .finished

def Reader.Item.isToken : Reader.Item → Bool
  | token _ => true
  | failure _ | finished => false

/-- What a delivery brings. -/
def Delivery.arrivals : Delivery → List Arrival
  | data bytes => bytes.map .byte
  | failure message => [.failure message]
  | pause => [.pause]
  | interruption => []

/-- The bytes, the failures and the pauses of a stream, in order. -/
def Input.arrivals (input : Input) : List Arrival :=
  input.fetched.map .byte ++ input.pending.flatMap Delivery.arrivals

/-- Bytes signal the tokens among them. -/
theorem filterMap_byte (bytes : List UInt8) :
    (bytes.map Arrival.byte).filterMap Arrival.signal? = (significant bytes).map .token := by
  rw [List.filterMap_map, significant, List.map_filterMap]
  rfl

theorem countP_byte (bytes : List UInt8) :
    (bytes.map Arrival.byte).countP Arrival.isByte = bytes.length := by
  rw [List.countP_map]
  exact List.countP_eq_length.mpr fun _ _ => rfl

/-- What arrives signals what the stream signals. -/
theorem Input.filterMap_arrivals (input : Input) :
    input.arrivals.filterMap Arrival.signal? = input.signals := by
  have delivered : ∀ d : Delivery, d.arrivals.filterMap Arrival.signal? = d.signals := fun d => by
    cases d with
    | data bytes => exact filterMap_byte bytes
    | failure message | pause | interruption => rfl
  rw [arrivals, signals, List.filterMap_append, filterMap_byte, List.filterMap_flatMap]
  simp only [delivered]

/-- Every byte arrives. -/
theorem Input.countP_arrivals (input : Input) :
    input.arrivals.countP Arrival.isByte = input.unread := by
  have delivered : ∀ d : Delivery, d.arrivals.countP Arrival.isByte = d.bytes.length := fun d => by
    cases d with
    | data bytes => exact countP_byte bytes
    | failure message | pause | interruption => rfl
  rw [arrivals, unread, bytes, List.countP_append, countP_byte, List.length_append,
    List.countP_flatMap, List.length_flatMap]
  exact congrArg _ (congrArg List.sum (List.map_congr_left fun d _ => delivered d))

/-! ## Reading one arrival after another -/

/-- What reading comes to: what is returned, what is left, and the counts. -/
structure Scan where
  item : Reader.Item
  rest : List Arrival
  offset : Nat
  position : Nat

/-- Reads one arrival after another, up to a token, a failure, a pause or the end. -/
def scan : List Arrival → (offset position : Nat) → Scan
  | [], offset, position => ⟨.finished, [], offset, position⟩
  | .failure message :: rest, offset, position => ⟨.failure message, rest, offset, position⟩
  | .pause :: rest, offset, position => ⟨.finished, rest, offset, position⟩
  | .byte b :: rest, offset, position =>
    match Token.ofByte? b with
    | some t => ⟨.token t, rest, offset + 1, position + 1⟩
    | none => scan rest (offset + 1) position

/-- The bytes of a comment are counted. -/
theorem scan_comment {comment : List UInt8} (unseen : ∀ b ∈ comment, Token.ofByte? b = none)
    (rest : List Arrival) (offset position : Nat) :
    scan (comment.map .byte ++ rest) offset position =
      scan rest (offset + comment.length) position := by
  induction comment generalizing offset with
  | nil => rfl
  | cons b comment ih =>
    have first := unseen b List.mem_cons_self
    have later := ih fun b member => unseen b (List.mem_cons_of_mem _ member)
    simp only [List.map_cons, List.cons_append, scan, first]
    rw [later, List.length_cons, Nat.add_right_comm, Nat.add_assoc]

/-- **What reading comes to**: it passes what signals nothing and returns a signal, or there is
none. -/
theorem scan_cases (arrivals : List Arrival) (offset position : Nat) :
    (∃ front mark rest s, arrivals = front ++ mark :: rest ∧
        front.filterMap Arrival.signal? = [] ∧ mark.signal? = some s ∧
        scan arrivals offset position =
          ⟨s.item, rest, offset + (front ++ [mark]).countP Arrival.isByte,
            position + [s.item].countP Reader.Item.isToken⟩) ∨
      arrivals.filterMap Arrival.signal? = [] ∧
        scan arrivals offset position =
          ⟨.finished, [], offset + arrivals.countP Arrival.isByte, position⟩ := by
  induction arrivals generalizing offset with
  | nil => exact .inr ⟨rfl, rfl⟩
  | cons first arrivals ih =>
    cases first with
    | failure message =>
      exact .inl ⟨[], _, arrivals, .failure message, rfl, rfl, rfl, rfl⟩
    | pause => exact .inl ⟨[], _, arrivals, .pause, rfl, rfl, rfl, rfl⟩
    | byte b =>
      cases found : Token.ofByte? b with
      | some t =>
        refine .inl ⟨[], _, arrivals, .token t, rfl, rfl, by simp [Arrival.signal?, found], ?_⟩
        simp [scan, found, Signal.item, Reader.Item.isToken, Arrival.isByte]
      | none =>
        have unseen : (Arrival.byte b).signal? = none := by simp [Arrival.signal?, found]
        have later : scan (.byte b :: arrivals) offset position =
            scan arrivals (offset + 1) position := by simp only [scan, found]
        have counted : ∀ more : List Arrival,
            offset + (Arrival.byte b :: more).countP Arrival.isByte =
              offset + 1 + more.countP Arrival.isByte := fun more => by
          rw [List.countP_cons_of_pos rfl, Nat.add_right_comm, Nat.add_assoc]
        obtain ⟨front, mark, rest, s, split, passed, signals, ends⟩ | ⟨nothing, ends⟩ :=
          ih (offset + 1)
        · refine .inl ⟨.byte b :: front, mark, rest, s, by rw [split]; rfl, ?_, signals, ?_⟩
          · rw [List.filterMap_cons_none unseen, passed]
          · rw [later, ends, List.cons_append, counted]
        · refine .inr ⟨?_, ?_⟩
          · rw [List.filterMap_cons_none unseen, nothing]
          · rw [later, ends, counted]

namespace Reader

/-- What arrives once some bytes have been passed over. -/
def left (comment : Input.Span) : List Arrival :=
  match comment.stop with
  | .byte _ => comment.rest.arrivals
  | .failure message => .failure message :: comment.rest.arrivals
  | .pause => .pause :: comment.rest.arrivals
  | .finished => []

/-- Passing over bytes loses no arrival. -/
theorem spanFrom_arrivals (p : UInt8 → Bool) (fetched : List UInt8) (pending : List Delivery) :
    (Input.spanFrom p fetched pending).taken.map .byte ++ left (Input.spanFrom p fetched pending) =
      (Input.mk fetched pending).arrivals := by
  have whole (bytes : List UInt8) : bytes.takeWhile p ++ bytes.dropWhile p = bytes :=
    List.takeWhile_append_dropWhile
  induction pending generalizing fetched with
  | nil =>
    unfold Input.spanFrom
    split
    · next b rest found =>
      simp only [left, Input.arrivals, ← found, ← List.append_assoc, ← List.map_append, whole]
    · rfl
  | cons d more ih =>
    unfold Input.spanFrom
    split
    · next b rest found =>
      simp only [left, Input.arrivals, ← found, ← List.append_assoc, ← List.map_append, whole]
    · have further : ∀ bytes, (fetched ++ (Input.spanFrom p bytes more).taken).map .byte ++
          left (Input.spanFrom p bytes more) =
            fetched.map .byte ++ (Input.mk bytes more).arrivals := fun bytes => by
        rw [List.map_append, List.append_assoc, ih]
      cases d with
      | failure message | pause => rfl
      | interruption => exact further []
      | data bytes => exact further bytes

/-- **A reader takes one arrival after another.** -/
theorem next_scan (r : Reader) :
    scan r.input.arrivals r.offset r.position =
      ⟨r.next.1, r.next.2.input.arrivals, r.next.2.offset, r.next.2.position⟩ := by
  have split := spanFrom_arrivals isComment r.input.fetched r.input.pending
  have unseen : ∀ b ∈ (r.input.span isComment).taken, Token.ofByte? b = none := fun b member =>
    Option.isNone_iff_eq_none.mp (Input.span_taken member)
  have passed : scan r.input.arrivals r.offset r.position = scan (left (r.input.span isComment))
      (r.offset + (r.input.span isComment).taken.length) r.position := by
    rw [← scan_comment unseen]
    exact congrArg (scan · r.offset r.position) split.symm
  rw [passed]
  obtain ⟨taken, comment, next⟩ | ⟨taken, rest, comment, next⟩ |
    ⟨taken, message, rest, comment, next⟩ | ⟨taken, t, bytes, pending, comment, next⟩ :=
      r.next_cases
  · rw [comment, next]
    rfl
  · rw [comment, next]
    rfl
  · rw [comment, next]
    rfl
  · have arrivals : (Input.mk (t.byte :: bytes) pending).arrivals =
        .byte t.byte :: (Input.mk bytes pending).arrivals := rfl
    rw [comment, next]
    simp only [left, arrivals, scan, Token.ofByte?_byte]

/-! ## One call after another -/

/-- A reader of a stream that has not been read. -/
def ofInput (source : Input) : Reader :=
  { input := source }

/-- What the next calls return. -/
def items : Nat → Reader → List Item
  | 0, _ => []
  | n + 1, r => r.next.1 :: items n r.next.2

/-- The reader behind some calls. -/
def after : Nat → Reader → Reader
  | 0, r => r
  | n + 1, r => after n r.next.2

theorem after_succ (n : Nat) (r : Reader) : r.after (n + 1) = (r.after n).next.2 := by
  induction n generalizing r with
  | zero => rfl
  | succ n ih => exact ih r.next.2

theorem items_succ (n : Nat) (r : Reader) :
    r.items (n + 1) = r.items n ++ [(r.after n).next.1] := by
  induction n generalizing r with
  | zero => rfl
  | succ n ih => exact congrArg _ (ih r.next.2)

/-- A call counts a token that it returns. -/
theorem next_position (r : Reader) :
    r.next.2.position = r.position + [r.next.1].countP Item.isToken := by
  obtain ⟨_, _, _, s, -, -, -, ends⟩ | ⟨-, ends⟩ :=
    scan_cases r.input.arrivals r.offset r.position
  all_goals
    rw [r.next_scan, Scan.mk.injEq] at ends
    obtain ⟨item, -, -, position⟩ := ends
    rw [position, item]
  rfl

/-- **The position counts the tokens** that are returned. -/
theorem position_after (n : Nat) (r : Reader) :
    (r.after n).position = r.position + (r.items n).countP Item.isToken := by
  induction n with
  | zero => rfl
  | succ n ih =>
    rw [after_succ, next_position, ih, items_succ, List.countP_append, Nat.add_assoc]

/-- Readers before which the same arrives, and which have counted the same, return the same. -/
theorem alike_after (r r' : Reader) (arrivals : r.input.arrivals = r'.input.arrivals)
    (offset : r.offset = r'.offset) (position : r.position = r'.position) (n : Nat) :
    r.items n = r'.items n ∧ (r.after n).offset = (r'.after n).offset ∧
      (r.after n).position = (r'.after n).position := by
  induction n generalizing r r' with
  | zero => exact ⟨rfl, offset, position⟩
  | succ n ih =>
    have same := r.next_scan
    rw [arrivals, offset, position, r'.next_scan, Scan.mk.injEq] at same
    obtain ⟨item, arrivals, offset, position⟩ := same
    obtain ⟨items, counts⟩ := ih _ _ arrivals.symm offset.symm position.symm
    exact ⟨by rw [Reader.items, Reader.items, item, items], counts⟩

/-- Some calls have passed the arrivals up to the signal that was returned last. -/
structure Passed (source : Input) (n : Nat) (read : List Arrival) (r : Reader) : Prop where
  split : source.arrivals = read ++ r.input.arrivals
  signals : read.filterMap Arrival.signal? = source.signals.take n
  offset : r.offset = read.countP Arrival.isByte

variable {source : Input} {n : Nat} {read : List Arrival} {r : Reader}

/-- What is to come signals what has not been returned. -/
theorem Passed.before (h : r.Passed source n read) :
    r.input.arrivals.filterMap Arrival.signal? = source.signals.drop n := by
  have whole := source.filterMap_arrivals
  rw [h.split, List.filterMap_append, h.signals] at whole
  exact List.append_cancel_left (whole.trans (List.take_append_drop n _).symm)

/-- **What a call passes**: it returns the next signal and has passed what is before it, or it has
passed everything. -/
theorem Passed.next (h : r.Passed source n read) :
    (∃ front mark s, source.signals[n]? = some s ∧ mark.signal? = some s ∧
        front.filterMap Arrival.signal? = source.signals.take n ∧ r.next.1 = s.item ∧
        r.next.2.Passed source (n + 1) (front ++ [mark])) ∨
      source.signals[n]? = none ∧ r.next.1 = .finished ∧
        r.next.2.Passed source (n + 1) source.arrivals := by
  have before := h.before
  have scanned := r.next_scan
  obtain ⟨front, mark, rest, s, split, quiet, signals, ends⟩ | ⟨nothing, ends⟩ :=
    scan_cases r.input.arrivals r.offset r.position
  · rw [ends, Scan.mk.injEq] at scanned
    obtain ⟨item, rest, offset, -⟩ := scanned
    rw [split, List.filterMap_append, quiet, List.nil_append,
      List.filterMap_cons_some signals] at before
    have nth : source.signals[n]? = some s := by rw [← List.head?_drop, ← before, List.head?_cons]
    have passed : (read ++ front).filterMap Arrival.signal? = source.signals.take n := by
      rw [List.filterMap_append, quiet, List.append_nil, h.signals]
    refine .inl ⟨read ++ front, mark, s, nth, signals, passed, item.symm, ?_, ?_, ?_⟩
    · rw [h.split, split, rest]
      simp
    · rw [List.filterMap_append, passed, List.take_add_one, nth, List.filterMap_cons_some signals]
      rfl
    · rw [← offset, h.offset, List.append_assoc, ← List.countP_append]
  · rw [ends, Scan.mk.injEq] at scanned
    obtain ⟨item, rest, offset, -⟩ := scanned
    rw [nothing] at before
    have all : source.signals.length ≤ n := List.drop_eq_nil_iff.mp before.symm
    refine .inr ⟨List.getElem?_eq_none all, item.symm, ?_, ?_, ?_⟩
    · rw [← rest, List.append_nil]
    · rw [source.filterMap_arrivals, List.take_of_length_le (Nat.le_succ_of_le all)]
    · rw [← offset, h.offset, h.split, List.countP_append]

/-- What the calls have passed. -/
theorem exists_passed (source : Input) (n : Nat) :
    ∃ read, ((ofInput source).after n).Passed source n read := by
  induction n with
  | zero => exact ⟨[], rfl, rfl, rfl⟩
  | succ n ih =>
    obtain ⟨read, passed⟩ := ih
    rw [after_succ]
    obtain ⟨front, mark, _, -, -, -, -, next⟩ | ⟨-, -, next⟩ := passed.next
    · exact ⟨_, next⟩
    · exact ⟨_, next⟩

/-- **What the calls return**: what is signalled, and then nothing more. -/
theorem items_eq (source : Input) (n : Nat) :
    (ofInput source).items n = (source.signals.take n).map Signal.item ++
      List.replicate (n - source.signals.length) .finished := by
  induction n with
  | zero => simp [items]
  | succ n ih =>
    obtain ⟨read, passed⟩ := exists_passed source n
    rw [items_succ, ih]
    obtain ⟨front, mark, s, nth, -, -, item, -⟩ | ⟨none_left, item, -⟩ := passed.next
    · have within : n < source.signals.length := (List.getElem?_eq_some_iff.mp nth).1
      rw [item, List.take_add_one, nth, Nat.sub_eq_zero_of_le within,
        Nat.sub_eq_zero_of_le (Nat.le_of_lt within)]
      simp
    · have all : source.signals.length ≤ n := List.getElem?_eq_none_iff.mp none_left
      rw [item, List.take_add_one, none_left, Nat.sub_add_comm all, List.replicate_succ']
      simp

/-- **Reading a script**: the calls of a reader return the tokens and the failures of the script in
order and then nothing more, whatever interrupts the deliveries and however bytes are divided into
them.  A pause is taken for the end by one call, and the next one reads on.  The position is the
number of tokens returned; the offset is the number of bytes up to what was returned last, or that
of all bytes. -/
theorem reading_of_script (source : Input) (n : Nat) :
    (ofInput source).items n = (source.signals.take n).map Signal.item ++
        List.replicate (n - source.signals.length) .finished ∧
      ((ofInput source).after n).position =
        ((ofInput source).items n).countP Item.isToken ∧
      (∀ s, source.signals[n]? = some s → ∃ front mark,
        source.arrivals =
          front ++ mark :: ((ofInput source).after (n + 1)).input.arrivals ∧
        front.filterMap Arrival.signal? = source.signals.take n ∧ mark.signal? = some s ∧
        ((ofInput source).after (n + 1)).offset =
          (front ++ [mark]).countP Arrival.isByte) ∧
      (source.signals[n]? = none →
        ((ofInput source).after (n + 1)).offset = source.unread) ∧
      ∀ other : Input, other.arrivals = source.arrivals →
        (ofInput other).items n = (ofInput source).items n ∧
        ((ofInput other).after n).offset = ((ofInput source).after n).offset ∧
        ((ofInput other).after n).position = ((ofInput source).after n).position := by
  obtain ⟨read, passed⟩ := exists_passed source n
  refine ⟨items_eq source n, ?_, ?_, ?_,
    fun other same => alike_after (ofInput other) (ofInput source) same rfl rfl n⟩
  · exact (position_after n (ofInput source)).trans (Nat.zero_add _)
  · intro s nth
    obtain ⟨front, mark, s', nth', signals, before, -, next⟩ | ⟨none_left, -, -⟩ := passed.next
    · obtain rfl : s' = s := Option.some.inj (nth'.symm.trans nth)
      refine ⟨front, mark, ?_, before, signals, ?_⟩
      · rw [after_succ, next.split, List.append_assoc]
        rfl
      · rw [after_succ, next.offset]
    · rw [none_left] at nth
      cases nth
  · intro none_left
    obtain ⟨front, mark, s, nth, -, -, -, -⟩ | ⟨-, -, next⟩ := passed.next
    · rw [none_left] at nth
      cases nth
    · rw [after_succ, next.offset, source.countP_arrivals]

/-- A failure and a pause between two tokens, the second of which is read nevertheless. -/
theorem reading_of_script_interrupted :
    let source : Input := ⟨[], [.data [0x61, 0x20], .interruption, .data [0x62], .failure "gone",
      .pause, .data [0x09, 0x63]]⟩
    let other : Input := ⟨[], [.data [0x61], .data [0x20, 0x62], .failure "gone", .interruption,
      .pause, .data [0x09, 0x63]]⟩
    (∃ front mark,
      source.arrivals = front ++ mark :: ((ofInput source).after 2).input.arrivals ∧
      front.filterMap Arrival.signal? = [.token .space] ∧ mark.signal? = some (.failure "gone") ∧
      ((ofInput source).after 2).offset = (front ++ [mark]).countP Arrival.isByte) ∧
    ((ofInput source).after 5).offset = 5 ∧
    (ofInput other).items 5 =
      [.token .space, .failure "gone", .finished, .token .tab, .finished] := by
  intro source other
  obtain ⟨-, -, failed, -, -⟩ := reading_of_script source 1
  obtain ⟨-, -, -, ended, -⟩ := reading_of_script source 4
  obtain ⟨items, -, -, -, alike⟩ := reading_of_script source 5
  refine ⟨failed _ (by decide), ended (by decide), ?_⟩
  rw [(alike other (by decide)).1, items]
  decide

end Reader

end Whitespace
