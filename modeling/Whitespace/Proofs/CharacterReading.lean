import Whitespace.Proofs.ByteByByte

/-!
# Reading a character

A call reads a first byte and the continuation bytes that come behind it, up to as many as the first
byte announces (`Reading.run`).  It returns the character that these bytes spell, or U+FFFD if they
spell none (`Reading.Renders`); the ways in which bytes spell none are overlong forms, surrogates,
numbers above `0x10FFFF` and bytes that are missing (`Reading.malformed_iff`).

So a text is read character by character, and nothing behind it is looked at
(`Reading.characters_leaves`).  Since a call reads a byte or comes to a failure or a pause, each
stream is at its end after finitely many (`Reading.exists_again_end`).

## Main definitions

* `Reading.run first more` — the bytes that are read behind a first byte.
* `Reading.Malformed first tail` — how bytes fail to spell a character.
* `Reading.Renders first tail c` — the character that stands for the bytes.
* `Input.size` — how many bytes, failures and pauses are to come.
-/

namespace Whitespace

namespace Input

/-- How many failures and pauses are to come. -/
def stops (input : Input) : Nat :=
  input.pending.countP fun d => d.stop?.isSome

/-- How many bytes, failures and pauses are to come. -/
def size (input : Input) : Nat :=
  input.unread + input.stops

variable {input rest : Input} {bytes : List UInt8}

/-- Behind the bytes that are delivered comes what is behind the failure or the pause. -/
theorem bytes_eq_delivered (input : Input) :
    input.bytes = input.delivered ++ input.beyond.bytes := by
  rcases input with ⟨fetched, pending⟩
  induction pending generalizing fetched with
  | nil => simp [bytes, delivered, beyond]
  | cons d pending ih =>
    cases d with
    | failure message | pause => simp [bytes, delivered, beyond, Delivery.bytes]
    | interruption =>
      have ih := ih []
      simpa [bytes, delivered, beyond, Delivery.bytes] using ih
    | data bytes =>
      have ih := ih []
      simpa [Input.bytes, delivered, beyond, Delivery.bytes] using ih

theorem unread_eq (input : Input) :
    input.unread = input.delivered.length + input.beyond.unread := by
  rw [unread, bytes_eq_delivered, List.length_append, unread]

/-- What the stream comes to is one of the failures and pauses to come, or the end. -/
theorem stops_eq (input : Input) :
    input.stops = (if input.ending = .finished then 0 else 1) + input.beyond.stops := by
  rcases input with ⟨fetched, pending⟩
  induction pending with
  | nil => rfl
  | cons d pending ih =>
    cases d with
    | failure message | pause =>
      rw [stops, List.countP_cons_of_pos rfl]
      exact Nat.add_comm _ 1
    | interruption | data bytes => exact ih

theorem Remains.unread (h : input.Remains bytes rest) :
    rest.unread = bytes.length + input.beyond.unread := by
  rw [unread_eq, h.delivered, h.beyond]

theorem Remains.stops (h : input.Remains bytes rest) : rest.stops = input.stops := by
  rw [stops_eq, h.ending, h.beyond, ← stops_eq]

/-- Behind a failure or a pause less is to come. -/
theorem size_beyond (stopped : input.ending ≠ .finished) : input.beyond.size < input.size := by
  have unread := unread_eq input
  have stops := stops_eq input
  rw [if_neg stopped] at stops
  simp only [size]
  omega

end Input

namespace Reading

open Input Utf8

/-! ## What bytes spell -/

/-- The bits of a first byte behind which so many bytes are to come. -/
def leadRange : Nat → Nat
  | 0 => 0x80
  | 1 => 0x20
  | 2 => 0x10
  | _ => 0x08

/-- The least number that needs so many bytes behind the first one. -/
def least : Nat → Nat
  | 0 => 0
  | 1 => 0x80
  | 2 => 0x800
  | _ => 0x10000

/-- The number whose bits the bytes hold. -/
def payload (first : UInt8) (tail : List UInt8) : Nat :=
  tail.foldl (fun n b => 64 * n + b.toNat % 64) (first.toNat % leadRange tail.length)

/-- How a first byte and the continuations behind it fail to spell a character. -/
inductive Malformed (first : UInt8) (tail : List UInt8) : Prop where
  /-- A byte that begins no character. -/
  | stray (large : 0x80 ≤ first.toNat) (none_announced : continuations first = 0)
  /-- Bytes that are missing. -/
  | truncated (short : tail.length < continuations first)
  /-- A number that needs fewer bytes. -/
  | overlong (small : payload first tail < least tail.length)
  /-- Half of a pair that stands for one character elsewhere. -/
  | surrogate (high : 0xD800 ≤ payload first tail) (low : payload first tail ≤ 0xDFFF)
  /-- A number above those of all characters. -/
  | beyond (large : 0x10FFFF < payload first tail)

/-- The character that is read for a first byte and the continuations behind it: the one that they
spell, and U+FFFD if they spell none. -/
structure Renders (first : UInt8) (tail : List UInt8) (c : Char) : Prop where
  spelled : ∀ c', String.utf8EncodeChar c' = first :: tail → c = c'
  replaced : (∀ c', String.utf8EncodeChar c' ≠ first :: tail) → c = '\uFFFD'
  malformed : Malformed first tail → c = '\uFFFD'

variable {first b : UInt8} {tail more : List UInt8} {c : Char}

/-- What a byte announces is told by its range. -/
theorem continuations_cases (first : UInt8) :
    continuations first = 0 ∨
      continuations first = 1 ∧ 0xC2 ≤ first.toNat ∧ first.toNat ≤ 0xDF ∨
      continuations first = 2 ∧ 0xE0 ≤ first.toNat ∧ first.toNat ≤ 0xEF ∨
      continuations first = 3 ∧ 0xF0 ≤ first.toNat ∧ first.toNat ≤ 0xF4 := by
  simp only [continuations, UInt8.le_iff_toNat_le]
  split_ifs with two three four
  · exact .inr (.inl ⟨rfl, two⟩)
  · exact .inr (.inr (.inl ⟨rfl, three⟩))
  · exact .inr (.inr (.inr ⟨rfl, four⟩))
  · exact .inl rfl

theorem isContinuation_iff : isContinuation b = true ↔ 0x80 ≤ b.toNat ∧ b.toNat ≤ 0xBF := by
  simp [isContinuation, UInt8.le_iff_toNat_le]

/-- The bytes that are owed are continuations. -/
theorem continues_of_paid {bounds : List Bounds}
    (paid : List.Forall₂ (fun bound b => bound.admits b = true) bounds tail)
    (narrow : ∀ bound ∈ bounds, 0x80 ≤ bound.least ∧ bound.greatest ≤ 0xBF) :
    ∀ b ∈ tail, isContinuation b = true := by
  induction paid with
  | nil => exact List.forall_mem_nil _
  | cons admitted later ih =>
    obtain ⟨here, later⟩ := List.forall_mem_cons.mp narrow
    exact List.forall_mem_cons.mpr ⟨isContinuation_of_admits here admitted, ih later⟩

/-- Behind the first byte of a character come the continuations that it announces. -/
theorem spelled_shape (spelled : String.utf8EncodeChar c = first :: tail) :
    tail.length = continuations first ∧ ∀ b ∈ tail, isContinuation b = true := by
  obtain ⟨first', tail', bounds, spelled', owes, paid⟩ := utf8EncodeChar_owed c
  obtain ⟨rfl, rfl⟩ := List.cons.inj (spelled.symm.trans spelled')
  obtain ⟨announced, narrow⟩ := owed_spec owes
  exact ⟨by rw [announced, paid.length_eq], continues_of_paid paid narrow⟩

/-- The bytes of a character hold its number, and no fewer would do. -/
theorem payload_of_spelled (spelled : String.utf8EncodeChar c = first :: tail) :
    payload first tail = c.toNat ∧ least tail.length ≤ c.toNat ∧
      (tail = [] → first.toNat < 0x80) := by
  change payload first tail = c.val.toNat ∧ least tail.length ≤ c.val.toNat ∧ _
  have valid : c.val.toNat < 0xD800 ∨ 0xDFFF < c.val.toNat ∧ c.val.toNat < 0x110000 := c.valid
  simp only [String.utf8EncodeChar] at spelled
  generalize c.val.toNat = v at valid spelled
  split_ifs at spelled with one two three <;> cases spelled <;>
    simp [payload, least, leadRange] <;> omega

/-- What spells a character is not malformed. -/
theorem not_malformed_of_spelled (spelled : String.utf8EncodeChar c = first :: tail) :
    ¬Malformed first tail := by
  obtain ⟨announced, -⟩ := spelled_shape spelled
  obtain ⟨number, enough, single⟩ := payload_of_spelled spelled
  have valid : c.toNat < 0xD800 ∨ 0xDFFF < c.toNat ∧ c.toNat < 0x110000 := c.valid
  intro malformed
  cases malformed with
  | stray large none_announced =>
    have small := single (List.length_eq_zero_iff.mp (announced.trans none_announced))
    omega
  | truncated short | overlong small | surrogate high low | beyond large => omega

/-- A byte is given by its number. -/
theorem ofNat_eq {n : Nat} (b : UInt8) (same : n = b.toNat) : UInt8.ofNat n = b := by
  rw [same, UInt8.ofNat_toNat]

/-- What is not malformed holds the number of a character. -/
theorem exists_char_of_sound (sound : ¬Malformed first tail) :
    ∃ c : Char, c.val.toNat = payload first tail := by
  have bounded : payload first tail ≤ 0x10FFFF :=
    Nat.le_of_not_lt fun large => sound (.beyond large)
  have valid : (payload first tail).isValidChar := by
    by_cases low : payload first tail < 0xD800
    · exact .inl low
    · have high := Nat.lt_of_not_le fun high => sound (.surrogate (Nat.le_of_not_lt low) high)
      exact .inr ⟨high, Nat.lt_succ_of_le bounded⟩
  exact ⟨.ofNatAux _ valid, rfl⟩

/-- What is not malformed spells a character. -/
theorem exists_spelled (sound : ¬Malformed first tail) (whole : tail.length ≤ continuations first)
    (continues : ∀ b ∈ tail, isContinuation b = true) :
    ∃ c, String.utf8EncodeChar c = first :: tail := by
  have full : tail.length = continuations first :=
    Nat.le_antisymm whole (Nat.le_of_not_lt fun short => sound (.truncated short))
  have enough : least tail.length ≤ payload first tail :=
    Nat.le_of_not_lt fun small => sound (.overlong small)
  have bounded : payload first tail ≤ 0x10FFFF :=
    Nat.le_of_not_lt fun large => sound (.beyond large)
  obtain ⟨c, value⟩ := exists_char_of_sound sound
  refine ⟨c, ?_⟩
  simp only [String.utf8EncodeChar, value]
  simp only [isContinuation_iff] at continues
  rcases continuations_cases first with
    none_announced | ⟨one, range⟩ | ⟨two, range⟩ | ⟨three, range⟩
  · obtain rfl := List.length_eq_zero_iff.mp (full.trans none_announced)
    have small : first.toNat < 0x80 :=
      Nat.lt_of_not_le fun large => sound (.stray large none_announced)
    have number : payload first [] = first.toNat := Nat.mod_eq_of_lt small
    rw [number, if_pos (by omega), ofNat_eq first rfl]
  · obtain ⟨b, rfl⟩ := List.length_eq_one_iff.mp (full.trans one)
    have bits := continues b (by simp)
    have number : payload first [b] = 64 * (first.toNat % 0x20) + b.toNat % 64 := rfl
    have least : 0x80 ≤ payload first [b] := enough
    rw [if_neg (by omega), if_pos (by omega), ofNat_eq first (by omega), ofNat_eq b (by omega)]
  · obtain ⟨b, b', rfl⟩ := List.length_eq_two.mp (full.trans two)
    have bits := continues b (by simp)
    have bits' := continues b' (by simp)
    have number : payload first [b, b'] =
      64 * (64 * (first.toNat % 0x10) + b.toNat % 64) + b'.toNat % 64 := rfl
    have least : 0x800 ≤ payload first [b, b'] := enough
    rw [if_neg (by omega), if_neg (by omega), if_pos (by omega), ofNat_eq first (by omega),
      ofNat_eq b (by omega), ofNat_eq b' (by omega)]
  · obtain ⟨b, b', b'', rfl⟩ := List.length_eq_three.mp (full.trans three)
    have bits := continues b (by simp)
    have bits' := continues b' (by simp)
    have bits'' := continues b'' (by simp)
    have number : payload first [b, b', b''] =
      64 * (64 * (64 * (first.toNat % 0x08) + b.toNat % 64) + b'.toNat % 64) + b''.toNat % 64 := rfl
    have least : 0x10000 ≤ payload first [b, b', b''] := enough
    rw [if_neg (by omega), if_neg (by omega), if_neg (by omega), ofNat_eq first (by omega),
      ofNat_eq b (by omega), ofNat_eq b' (by omega), ofNat_eq b'' (by omega)]

/-- **The ways to be malformed** are all the ways to spell no character. -/
theorem malformed_iff (whole : tail.length ≤ continuations first)
    (continues : ∀ b ∈ tail, isContinuation b = true) :
    Malformed first tail ↔ ∀ c, String.utf8EncodeChar c ≠ first :: tail := by
  refine ⟨fun malformed c spelled => not_malformed_of_spelled spelled malformed, ?_⟩
  intro unspelled
  by_contra sound
  obtain ⟨c, spelled⟩ := exists_spelled sound whole continues
  exact unspelled c spelled

/-- Fewer bytes than are announced stand for no character. -/
theorem renders_of_truncated (short : tail.length < continuations first) :
    Renders first tail replacement where
  spelled c' spelled := by
    obtain ⟨full, -⟩ := spelled_shape spelled
    omega
  replaced _ := rfl
  malformed _ := rfl

/-- As many bytes as are announced stand for the character that they spell, or for none. -/
theorem renders_of_full (full : tail.length = continuations first) :
    Renders first tail ((scalar? (first :: tail)).getD replacement) := by
  have replaced : (∀ c', String.utf8EncodeChar c' ≠ first :: tail) →
      (scalar? (first :: tail)).getD replacement = replacement := by
    intro unspelled
    cases begins : scalar? (first :: tail) with
    | none => rfl
    | some c =>
      -- No bytes are left behind the character, because it announces as many as there are.
      obtain ⟨more, split⟩ := exists_of_scalar? begins
      obtain ⟨first', tail', -, spelled, -⟩ := utf8EncodeChar_owed c
      rw [spelled, List.cons_append] at split
      obtain ⟨rfl, rfl⟩ := List.cons.inj split
      obtain ⟨announced, -⟩ := spelled_shape spelled
      have nothing : more = [] := by
        rw [List.length_append, announced] at full
        exact List.length_eq_zero_iff.mp (by omega)
      rw [nothing, List.append_nil] at unspelled
      exact absurd spelled (unspelled c)
  refine ⟨fun c' spelled => ?_, replaced, fun malformed => replaced fun c' spelled => ?_⟩
  · rw [← spelled, scalar?_utf8EncodeChar, Option.getD_some]
  · exact not_malformed_of_spelled spelled malformed

/-! ## What a call reads -/

/-- The continuations that are read behind a first byte. -/
def run (first : UInt8) (more : List UInt8) : List UInt8 :=
  (more.takeWhile isContinuation).take (continuations first)

theorem run_begins (first : UInt8) (more : List UInt8) : run first more <+: more :=
  (List.take_prefix _ _).trans (List.takeWhile_prefix _)

theorem length_run_le (first : UInt8) (more : List UInt8) :
    (run first more).length ≤ continuations first :=
  List.length_take_le _ _

theorem continues_of_mem_run : ∀ b ∈ run first more, isContinuation b = true := by
  intro b member
  exact List.mem_takeWhile_imp (List.mem_of_mem_take member)

/-- What is left behind a first byte and its continuations. -/
theorem run_append_drop (first : UInt8) (more : List UInt8) :
    run first more ++ more.drop (run first more).length = more :=
  List.prefix_iff_eq_append.mp (run_begins first more)

/-- A byte that stops a run before it is long enough does not continue the character. -/
theorem unfit_of_short (short : (run first more).length < continuations first)
    (next : more.drop (run first more).length = b :: tail) : isContinuation b = false := by
  have whole : run first more = more.takeWhile isContinuation := by
    rw [run, List.length_take] at short
    exact List.take_of_length_le (by omega)
  have left : more.dropWhile isContinuation = b :: tail := by
    have split := run_append_drop first more
    rw [next, whole] at split
    exact List.append_cancel_left (List.takeWhile_append_dropWhile.trans split.symm)
  exact unfit_of_head?_dropWhile (by rw [left, List.head?_cons])

variable {input rest : Input} {owed : Nat} {message : String}

/-- A byte that is read is seen first. -/
theorem peek_leaves (left : input.Leaves (b :: tail) rest) :
    ∃ ready, peek input = .ok (some b) ready ∧ ready.advance.Leaves tail rest := by
  obtain ⟨ready, seen, is_ready⟩ := peek_byte left.delivered
  exact ⟨ready, seen, leaves_advance is_ready.fetched (is_ready.leaves tail rest left)⟩

/-- Continuations are read as far as they are announced. -/
theorem characterFrom_leaves (left : input.Leaves tail rest)
    (continues : ∀ b ∈ tail, isContinuation b = true) (read : List UInt8) :
    characterFrom read (tail.length + owed) input = characterFrom (read ++ tail) owed rest := by
  induction tail generalizing input read with
  | nil => rw [left.eq_of_nil, List.append_nil, List.length_nil, Nat.zero_add]
  | cons b tail ih =>
    obtain ⟨here, later⟩ := List.forall_mem_cons.mp continues
    obtain ⟨ready, seen, behind⟩ := peek_leaves left
    have advanced : advance ready = .ok () ready.advance := rfl
    rw [List.length_cons, Nat.add_right_comm, characterFrom, bind_ok _ seen]
    simp only [here, if_true]
    rw [bind_ok _ advanced, ih behind later, List.append_assoc, List.singleton_append]

/-- A first byte and continuations behind it are read. -/
theorem character_leaves (left : input.Leaves (first :: tail) rest)
    (continues : ∀ b ∈ tail, isContinuation b = true)
    (announced : tail.length + owed = continuations first) :
    character input = characterFrom (first :: tail) owed rest := by
  obtain ⟨ready, seen, behind⟩ := peek_leaves left
  have advanced : advance ready = .ok () ready.advance := rfl
  rw [character, bind_ok _ seen]
  change (advance >>= fun _ => characterFrom [first] (continuations first)) ready = _
  rw [bind_ok _ advanced, ← announced, characterFrom_leaves behind continues,
    List.singleton_append]

/-- **A character is read**, and nothing behind it is looked at. -/
theorem character_spelled (left : input.Leaves (String.utf8EncodeChar c) rest) :
    character input = .ok c rest := by
  obtain ⟨first, tail, -, spelled, -⟩ := utf8EncodeChar_owed c
  obtain ⟨announced, continues⟩ := spelled_shape spelled
  have whole := scalar?_utf8EncodeChar c
  rw [spelled] at left whole
  rw [character_leaves left continues (Nat.add_zero _ |>.trans announced), characterFrom, whole]
  rfl

/-- Reads so many characters. -/
def characters : Nat → Reading (List Char)
  | 0 => pure []
  | n + 1 => do
    let c ← character
    let text ← characters n
    pure (c :: text)

/-- **A text is read character by character**, and nothing behind it is looked at. -/
theorem characters_leaves {text : List Char}
    (left : input.Leaves (text.flatMap String.utf8EncodeChar) rest) :
    characters text.length input = .ok text rest := by
  induction text generalizing input with
  | nil =>
    rw [left.eq_of_nil]
    rfl
  | cons c text ih =>
    obtain ⟨middle, here, later⟩ := left.split
    rw [List.length_cons, characters, bind_ok _ (character_spelled here), bind_ok _ (ih later)]
    rfl

/-- Where a continuation is missing, the byte that comes instead is left. -/
theorem characterFrom_byte (next : input.delivered = b :: more) (unfit : isContinuation b = false)
    (read : List UInt8) :
    ∃ ready, characterFrom read (owed + 1) input = .ok replacement ready ∧
      input.Remains (b :: more) ready := by
  obtain ⟨ready, seen, is_ready⟩ := peek_byte next
  refine ⟨ready, ?_, is_ready.remains⟩
  rw [characterFrom, bind_ok _ seen]
  simp only [unfit]
  rfl

theorem characterFrom_end (none_left : input.delivered = [])
    (ended : input.ending = .pause ∨ input.ending = .finished) (read : List UInt8) :
    characterFrom read (owed + 1) input = .ok replacement input.beyond := by
  rw [characterFrom, bind_ok _ (peek_end none_left ended)]
  rfl

theorem characterFrom_failure (none_left : input.delivered = [])
    (failure : input.ending = .failure message) (read : List UInt8) :
    characterFrom read (owed + 1) input = .error (.io message) input.beyond :=
  bind_error _ (peek_failure none_left failure)

/-! ## The whole call -/

/-- Nothing is there to be read. -/
theorem character_end (none_left : input.delivered = [])
    (ended : input.ending = .pause ∨ input.ending = .finished) :
    character input = .error .endOfInput input.beyond := by
  rw [character, bind_ok _ (peek_end none_left ended)]
  rfl

/-- A first byte and its continuations can be read. -/
theorem exists_leaves_run (next : input.delivered = first :: more) :
    ∃ middle, input.Leaves (first :: run first more) middle ∧
      input.Remains (more.drop (run first more).length) middle := by
  have begins : first :: run first more <+: input.delivered := by
    rw [next]
    exact List.cons_prefix_cons.mpr ⟨rfl, run_begins first more⟩
  obtain ⟨middle, left⟩ := exists_leaves begins
  have split := next.symm.trans left.delivered
  rw [List.cons_append, List.cons.injEq] at split
  have behind := List.append_cancel_left (split.2.symm.trans (run_append_drop first more).symm)
  exact ⟨middle, left, behind ▸ left.remains⟩

/-- Whether what is behind the bytes that are delivered is met: nothing is there to be read, or the
bytes are fewer than the first one announces. -/
def Exhausts : List UInt8 → Prop
  | [] => True
  | first :: more => run first more = more ∧ more.length < continuations first

/-- A first byte and its continuations are read, and more are owed than are there. -/
theorem exists_owed (next : input.delivered = first :: more)
    (exhausts : Exhausts (first :: more)) :
    ∃ owed middle, character input = characterFrom (first :: run first more) (owed + 1) middle ∧
      input.Remains [] middle := by
  obtain ⟨whole, short⟩ := exhausts
  obtain ⟨middle, left, remains⟩ := exists_leaves_run next
  obtain ⟨owed, announced⟩ := Nat.exists_eq_add_of_lt short
  have announced' : (run first more).length + (owed + 1) = continuations first := by
    rw [whole]
    exact announced.symm
  rw [whole, List.drop_length] at remains
  exact ⟨owed, middle, character_leaves left continues_of_mem_run announced', remains⟩

/-- **A failure is thrown** if it is met. -/
theorem character_failure (exhausts : Exhausts input.delivered)
    (failure : input.ending = .failure message) :
    character input = .error (.io message) input.beyond := by
  cases next : input.delivered with
  | nil => exact bind_error _ (peek_failure next failure)
  | cons first more =>
    obtain ⟨owed, middle, read, remains⟩ := exists_owed next (next ▸ exhausts)
    rw [read, ← remains.beyond]
    exact characterFrom_failure remains.delivered (remains.ending.trans failure) _

/-- **A character is cut off** at the end, or at a pause, if that is met. -/
theorem character_cut_off (next : input.delivered = first :: more)
    (exhausts : Exhausts input.delivered)
    (ended : input.ending = .pause ∨ input.ending = .finished) :
    ∃ c, character input = .ok c input.beyond ∧ Renders first (run first more) c := by
  rw [next] at exhausts
  obtain ⟨owed, middle, read, remains⟩ := exists_owed next exhausts
  have ended' : middle.ending = .pause ∨ middle.ending = .finished := by rwa [remains.ending]
  have short : (run first more).length < continuations first := by
    rw [exhausts.1]
    exact exhausts.2
  refine ⟨replacement, ?_, renders_of_truncated short⟩
  rw [read, ← remains.beyond]
  exact characterFrom_end remains.delivered ended' _

/-- **A character is returned** for a first byte and its continuations, if nothing behind the bytes
that are delivered is met but the end. -/
theorem character_first (next : input.delivered = first :: more)
    (goes : ¬Exhausts input.delivered ∨ input.ending = .finished) :
    ∃ c rest, character input = .ok c rest ∧
      input.Remains (more.drop (run first more).length) rest ∧
      Renders first (run first more) c := by
  obtain ⟨middle, left, remains⟩ := exists_leaves_run next
  by_cases full : (run first more).length = continuations first
  · have read := character_leaves left continues_of_mem_run (Nat.add_zero _ |>.trans full)
    exact ⟨_, middle, read, remains, renders_of_full full⟩
  · have short : (run first more).length < continuations first :=
      Nat.lt_of_le_of_ne (length_run_le first more) full
    cases after : more.drop (run first more).length with
    | cons b later =>
      obtain ⟨owed, announced⟩ := Nat.exists_eq_add_of_lt short
      rw [Nat.add_assoc] at announced
      have read := character_leaves left continues_of_mem_run announced.symm
      rw [after] at remains
      obtain ⟨rest, replaced, left'⟩ :=
        characterFrom_byte remains.delivered (unfit_of_short short after) (first :: run first more)
      exact ⟨_, rest, read.trans replaced, remains.trans left', renders_of_truncated short⟩
    | nil =>
      have whole := run_append_drop first more
      rw [after, List.append_nil] at whole
      have exhausts : Exhausts input.delivered := by
        rw [next]
        exact ⟨whole, by rwa [whole] at short⟩
      have finished : input.ending = .finished := goes.resolve_left (absurd exhausts)
      obtain ⟨c, read, renders⟩ := character_cut_off next exhausts (.inr finished)
      have behind := beyond_of_finished finished
      exact ⟨c, input.beyond, read, ⟨by rw [behind]; rfl, by rw [behind, finished]; rfl,
        by rw [behind]; rfl⟩, renders⟩

/-- What a call comes to. -/
theorem character_cases (input : Input) :
    (input.ending = .pause ∨ input.ending = .finished) ∧
        character input = .error .endOfInput input.beyond ∨
      (∃ message, input.ending = .failure message ∧
        character input = .error (.io message) input.beyond) ∨
      ∃ first more c rest, input.delivered = first :: more ∧ character input = .ok c rest ∧
        (input.Remains (more.drop (run first more).length) rest ∨
          input.ending = .pause ∧ rest = input.beyond) := by
  cases next : input.delivered with
  | nil =>
    obtain ⟨message, failed⟩ | ended := input.ending_cases
    · exact .inr (.inl ⟨message, failed, character_failure (next ▸ trivial) failed⟩)
    · exact .inl ⟨ended, character_end next ended⟩
  | cons first more =>
    by_cases exhausts : Exhausts input.delivered
    · obtain ⟨message, failed⟩ | paused | finished := input.ending_cases
      · exact .inr (.inl ⟨message, failed, character_failure exhausts failed⟩)
      · obtain ⟨c, read, -⟩ := character_cut_off next exhausts (.inl paused)
        exact .inr (.inr ⟨first, more, c, _, rfl, read, .inr ⟨paused, rfl⟩⟩)
      · obtain ⟨c, rest, read, remains, -⟩ := character_first next (.inr finished)
        exact .inr (.inr ⟨first, more, c, rest, rfl, read, .inl remains⟩)
    · obtain ⟨c, rest, read, remains, -⟩ := character_first next (.inl exhausts)
      exact .inr (.inr ⟨first, more, c, rest, rfl, read, .inl remains⟩)

/-! ## All calls -/

/-- **A call that returns a character has read a byte.** -/
theorem unread_lt_of_ok (returned : character input = .ok c rest) : rest.unread < input.unread := by
  obtain ⟨-, ended⟩ | ⟨message, -, thrown⟩ | ⟨first, more, c', rest', next, read, left⟩ :=
    character_cases input
  · rw [ended] at returned
    cases returned
  · rw [thrown] at returned
    cases returned
  · rw [read] at returned
    cases returned
    have whole := unread_eq input
    rw [next, List.length_cons] at whole
    obtain remains | ⟨-, rfl⟩ := left
    · rw [remains.unread, List.length_drop]
      omega
    · omega

/-- The stream that an operation leaves, whatever it comes to. -/
def left {α : Type} : EStateM.Result Cause Input α → Input
  | .ok _ rest => rest
  | .error _ rest => rest

/-- **A call leaves less to come**, unless it comes to the end of the stream. -/
theorem size_left (going : character input ≠ .error .endOfInput {}) :
    (left (character input)).size < input.size := by
  obtain ⟨ended, thrown⟩ | ⟨message, failure, thrown⟩ |
    ⟨first, more, c, rest, next, read, behind⟩ := character_cases input
  · have stopped : input.ending ≠ .finished := fun finished =>
      going (thrown.trans (by rw [beyond_of_finished finished]))
    rw [thrown]
    exact size_beyond stopped
  · rw [thrown]
    exact size_beyond (by simp [failure])
  · rw [read]
    obtain remains | ⟨paused, rfl⟩ := behind
    · have fewer := unread_lt_of_ok read
      have same := remains.stops
      simp only [left, size]
      omega
    · exact size_beyond (by simp [paused])

/-- The stream that so many calls leave, whatever they come to. -/
def again : Nat → Input → Input
  | 0, input => input
  | n + 1, input => again n (left (character input))

/-- **Each stream comes to its end** after no more calls than bytes, failures and pauses are to
come. -/
theorem exists_again_end (input : Input) :
    ∃ n ≤ input.size, character (again n input) = .error .endOfInput {} := by
  induction size : input.size using Nat.strongRecOn generalizing input with
  | ind bound ih =>
    by_cases ended : character input = .error .endOfInput {}
    · exact ⟨0, Nat.zero_le _, ended⟩
    · have less := size_left ended
      obtain ⟨n, few, last⟩ := ih _ (size ▸ less) _ rfl
      exact ⟨n + 1, by omega, last⟩

/-- **Reading characters, completely.**  A text is read character by character, and nothing behind
it is looked at.  Whatever else is delivered, a first byte is read with the run of continuations
behind it, and the character is returned that they stand for; a failure is thrown only where it is
met, and a pause is taken for the end where it is met.  Without bytes the end of the stream is met,
and each stream comes to it, since each character that is returned has cost a byte. -/
theorem character_exact (input : Input) :
    (∀ (text : List Char) (more : List UInt8),
      input.delivered = text.flatMap String.utf8EncodeChar ++ more →
      ∃ rest, characters text.length input = .ok text rest ∧
        input.Leaves (text.flatMap String.utf8EncodeChar) rest ∧ rest.delivered = more) ∧
    (∀ first more, input.delivered = first :: more →
      (¬Exhausts input.delivered ∨ input.ending = .finished →
        ∃ c rest, character input = .ok c rest ∧
          input.Remains (more.drop (run first more).length) rest ∧
          Renders first (run first more) c) ∧
      (Exhausts input.delivered → input.ending = .pause →
        ∃ c, character input = .ok c input.beyond ∧ Renders first (run first more) c)) ∧
    (∀ message, input.ending = .failure message → Exhausts input.delivered →
      character input = .error (.io message) input.beyond) ∧
    (input.delivered = [] →
      (input.ending = .finished → character input = .error .endOfInput {}) ∧
      (input.ending = .pause → character input = .error .endOfInput input.beyond)) ∧
    (∀ c rest, character input = .ok c rest → rest.unread < input.unread) ∧
    ∃ n ≤ input.size, character (again n input) = .error .endOfInput {} := by
  refine ⟨fun text more next => ?_, fun first more next => ⟨character_first next, ?_⟩,
    fun message failure exhausts => character_failure exhausts failure,
    fun none_left => ⟨fun finished => ?_, fun paused => character_end none_left (.inl paused)⟩,
    fun c rest => unread_lt_of_ok, exists_again_end input⟩
  · obtain ⟨rest, left⟩ := exists_leaves ⟨more, next.symm⟩
    have behind := List.append_cancel_left (left.delivered.symm.trans next)
    exact ⟨rest, characters_leaves left, left, behind⟩
  · exact fun exhausts paused => character_cut_off next exhausts (.inl paused)
  · rw [character_end none_left (.inr finished), beyond_of_finished finished]

/-- A letter of two bytes is read over an interruption; then two bytes of three are replaced, and
the letter behind them is left.  So is a byte behind a pause. -/
theorem character_exact_truncated :
    (∃ rest, characters 1 ⟨[0xC3], [.interruption, .data [0xA9, 0x78]]⟩ = .ok ['é'] rest ∧
      rest.delivered = [0x78]) ∧
    (∃ rest, character ⟨[0xE2], [.interruption, .data [0x82, 0x78]]⟩ = .ok '\uFFFD' rest ∧
      rest.delivered = [0x78]) ∧
    character ⟨[0xE2], [.pause, .data [0x82]]⟩ = .ok '\uFFFD' ⟨[], [.data [0x82]]⟩ := by
  refine ⟨?text, ?replaced, ?paused⟩
  case text =>
    obtain ⟨text, -⟩ := character_exact ⟨[0xC3], [.interruption, .data [0xA9, 0x78]]⟩
    obtain ⟨rest, read, -, left⟩ := text ['é'] [0x78] (by decide)
    exact ⟨rest, read, left⟩
  case replaced =>
    obtain ⟨-, first, -⟩ := character_exact ⟨[0xE2], [.interruption, .data [0x82, 0x78]]⟩
    obtain ⟨c, rest, read, remains, renders⟩ := (first 0xE2 [0x82, 0x78] rfl).1 (.inr rfl)
    have replaced : c = '\uFFFD' := renders.malformed (.truncated (by decide))
    exact ⟨rest, replaced ▸ read, remains.delivered⟩
  case paused =>
    obtain ⟨-, first, -⟩ := character_exact ⟨[0xE2], [.pause, .data [0x82]]⟩
    obtain ⟨c, read, renders⟩ := (first 0xE2 [] rfl).2 ⟨rfl, by decide⟩ rfl
    have replaced : c = '\uFFFD' := renders.malformed (.truncated (by decide))
    exact replaced ▸ read

end Reading

end Whitespace
