import Whitespace.Proofs.TextRoundTrip

/-!
# Which tokens are numbers

A token that is read as a number is a sequence of bytes, and it is decoded as text before it is
parsed, malformed parts of it being replaced.  Nothing of this shows in the result: a token is a
number if and only if its bytes are an optional sign and ASCII digits, and the integer that they
denote is in the range of a word (`Decimal.word?_decode_eq_some_iff`).

The reason is that decoding produces an ASCII character from an ASCII byte only
(`Utf8.ascii_of_decode`).

## Main definitions

* `Decimal.Denotes token v` — the bytes of the token denote the integer.
-/

namespace Whitespace.Utf8

/-! ### ASCII -/

theorem toNat_ofUInt8 (b : UInt8) : (Char.ofUInt8 b).toNat = b.toNat :=
  b.toNat_toUInt32

/-- An ASCII character is spelled with one byte. -/
theorem utf8EncodeChar_ofUInt8 {b : UInt8} (ascii : b.toNat < 0x80) :
    String.utf8EncodeChar (Char.ofUInt8 b) = [b] := by
  have number : (Char.ofUInt8 b).val.toNat = b.toNat := toNat_ofUInt8 b
  rw [String.utf8EncodeChar]
  simp only [number]
  rw [if_pos (by omega), UInt8.ofNat_toNat]

/-- ASCII bytes are decoded one by one. -/
theorem decode_of_ascii {bytes : List UInt8} (ascii : ∀ b ∈ bytes, b.toNat < 0x80) :
    decode bytes = bytes.map Char.ofUInt8 := by
  have spelled : (bytes.map Char.ofUInt8).flatMap String.utf8EncodeChar = bytes := by
    induction bytes with
    | nil => rfl
    | cons b bytes ih =>
      rw [List.map_cons, List.flatMap_cons, utf8EncodeChar_ofUInt8 (ascii b List.mem_cons_self),
        ih fun c member => ascii c (List.mem_cons_of_mem b member)]
      rfl
  have decoded := decode_flatMap (bytes.map Char.ofUInt8)
  rwa [spelled] at decoded

/-- A byte that is not ASCII begins no ASCII character. -/
theorem scalar?_large {first : UInt8} (large : 0x80 ≤ first.toNat) (more : List UInt8) :
    0x80 ≤ ((scalar? (first :: more)).getD replacement).toNat := by
  cases begins : scalar? (first :: more) with
  | none => decide
  | some c =>
    by_contra small
    have small : c.toNat < 0x80 := Nat.lt_of_not_le small
    have single : String.utf8EncodeChar c = [UInt8.ofNat c.toNat] :=
      if_pos (Nat.le_of_lt_succ small)
    obtain ⟨rest, split⟩ := exists_of_scalar? begins
    rw [single] at split
    rw [(List.cons.inj split).1, UInt8.toNat_ofNat_of_lt' (show c.toNat < 0x100 by omega)] at large
    omega

/-- Only ASCII bytes are characters by themselves. -/
theorem owed_eq_nil_iff (b : UInt8) : owed b = some [] ↔ b.toNat < 0x80 := by
  have same : b < 0x80 ↔ b.toNat < 0x80 := UInt8.lt_iff_toNat_lt
  rw [← same, owed]
  constructor
  · intro alone
    by_contra large
    rw [if_neg large] at alone
    split_ifs at alone
    all_goals simp at alone
  · intro ascii
    rw [if_pos ascii]

/-- A character that has been begun does not begin with an ASCII byte. -/
def Place.Begun (place : Place) : Prop :=
  place.owed ≠ [] → ∃ first, place.bytes.getLast? = some first ∧ 0x80 ≤ first.toNat

/-- A byte that leaves nothing but ASCII behind is ASCII itself. -/
theorem begin_ascii (b : UInt8) :
    (begin b).2.Begun ∧
      ((∀ c ∈ (begin b).1, c.toNat < 0x80) → (begin b).2.owed = [] → b.toNat < 0x80) := by
  have alone := owed_eq_nil_iff b
  rw [begin]
  cases owes : owed b with
  | none =>
    refine ⟨fun some => absurd rfl some, fun ascii _ => ?_⟩
    exact absurd (ascii replacement (List.mem_singleton_self _)) (by decide)
  | some bounds =>
    rw [owes] at alone
    cases bounds with
    | nil => exact ⟨fun some => absurd rfl some, fun _ _ => alone.mp rfl⟩
    | cons bound more =>
      refine ⟨fun _ => ⟨b, rfl, ?_⟩, fun _ none_owed => by cases none_owed⟩
      by_contra small
      have wrong := alone.mpr (by omega)
      cases wrong

/-- So it is inside a character, where it leaves something else behind. -/
theorem Place.feed_ascii {place : Place} (begun : place.Begun) (b : UInt8) :
    (place.feed b).2.Begun ∧
      ((∀ c ∈ (place.feed b).1, c.toNat < 0x80) → (place.feed b).2.owed = [] →
        place.owed = [] ∧ b.toNat < 0x80) := by
  rcases place with ⟨bytes, _ | ⟨bound, more⟩⟩
  · obtain ⟨next, ascii⟩ := begin_ascii b
    exact ⟨next, fun finished owed => ⟨rfl, ascii finished owed⟩⟩
  · obtain ⟨first, last, large⟩ := begun (List.cons_ne_nil _ _)
    obtain ⟨front, rfl⟩ := List.getLast?_eq_some_iff.mp last
    rw [Place.feed]
    by_cases admitted : bound.admits b = true
    · simp only [admitted, if_true]
      cases more with
      | nil =>
        refine ⟨fun some => absurd rfl some, fun ascii _ => ?_⟩
        have wrong := ascii _ (List.mem_singleton_self _)
        have other := scalar?_large large (front.reverse ++ [b])
        simp only [List.reverse_cons, List.reverse_append, List.reverse_nil, List.nil_append,
          List.cons_append] at wrong
        omega
      | cons next more =>
        refine ⟨fun _ => ⟨first, ?_, large⟩, fun _ none_owed => by cases none_owed⟩
        exact List.getLast?_eq_some_iff.mpr ⟨b :: front, rfl⟩
    · simp only [admitted]
      refine ⟨(begin_ascii b).1, fun ascii _ => ?_⟩
      exact absurd (ascii replacement List.mem_cons_self) (by decide)

/-- Behind a place, ASCII is decoded from ASCII bytes only. -/
theorem decodeFrom_ascii {place : Place} {text : Array Char} {bytes : List UInt8}
    (begun : place.Begun)
    (ascii : ∀ c ∈ (decodeFrom place text bytes).toList, c.toNat < 0x80) :
    (∀ c ∈ text.toList, c.toNat < 0x80) ∧ place.owed = [] ∧ ∀ b ∈ bytes, b.toNat < 0x80 := by
  induction bytes generalizing place text with
  | nil =>
    rw [decodeFrom] at ascii
    cases owed : place.owed with
    | nil =>
      simp only [owed, List.isEmpty_nil, if_true] at ascii
      exact ⟨ascii, rfl, List.forall_mem_nil _⟩
    | cons bound more =>
      have wrong := ascii replacement (by simp [owed])
      exact absurd wrong (by decide)
  | cons b bytes ih =>
    rw [decodeFrom] at ascii
    obtain ⟨next, fed⟩ := place.feed_ascii begun b
    rcases place.feed b with ⟨finished, place'⟩
    obtain ⟨before, none_owed, after⟩ := ih next ascii
    rw [Array.toList_appendList] at before
    obtain ⟨owed, small⟩ :=
      fed (fun c member => before c (List.mem_append_right _ member)) none_owed
    refine ⟨fun c member => before c (List.mem_append_left _ member), owed, ?_⟩
    exact List.forall_mem_cons.mpr ⟨small, after⟩

/-- **An ASCII character is decoded from an ASCII byte only.** -/
theorem ascii_of_decode {bytes : List UInt8} (ascii : ∀ c ∈ decode bytes, c.toNat < 0x80) :
    ∀ b ∈ bytes, b.toNat < 0x80 := by
  have between : Place.Begun {} := fun some => absurd rfl some
  exact (decodeFrom_ascii between ascii).2.2

end Whitespace.Utf8

namespace Whitespace.Decimal

/-- Whether a byte is an ASCII digit. -/
def isDigitByte (b : UInt8) : Bool :=
  0x30 ≤ b && b ≤ 0x39

/-- The number that ASCII digits denote. -/
def ofDigitBytes (digits : List UInt8) : Nat :=
  digits.foldl (fun n b => 10 * n + (b.toNat - 0x30)) 0

/-- The integer that a token denotes: one or more ASCII digits, behind a sign or not. -/
inductive Denotes : List UInt8 → Int → Prop where
  | unsigned {digits : List UInt8} (some : digits ≠ [])
      (decimal : ∀ b ∈ digits, isDigitByte b = true) : Denotes digits (ofDigitBytes digits)
  | plus {digits : List UInt8} (some : digits ≠ [])
      (decimal : ∀ b ∈ digits, isDigitByte b = true) :
      Denotes (0x2B :: digits) (ofDigitBytes digits)
  | minus {digits : List UInt8} (some : digits ≠ [])
      (decimal : ∀ b ∈ digits, isDigitByte b = true) :
      Denotes (0x2D :: digits) (-(ofDigitBytes digits : Int))

/-! ### Parsing ASCII -/

theorem isDigit_ofUInt8 (b : UInt8) : (Char.ofUInt8 b).isDigit = isDigitByte b := by
  have number : (Char.ofUInt8 b).val.toNat = b.toNat := Utf8.toNat_ofUInt8 b
  simp only [Char.isDigit, isDigitByte, ge_iff_le, UInt32.le_iff_toNat_le, UInt8.le_iff_toNat_le,
    number]
  rfl

theorem ofDigitChars_map (digits : List UInt8) :
    Nat.ofDigitChars 10 (digits.map Char.ofUInt8) 0 = ofDigitBytes digits := by
  rw [Nat.ofDigitChars, ofDigitBytes, List.foldl_map]
  simp only [Utf8.toNat_ofUInt8]
  rfl

/-- Digits denote the number that is computed from their bytes. -/
theorem natural?_map {digits : List UInt8} {n : Nat} :
    natural? (digits.map Char.ofUInt8) = some n ↔
      (digits ≠ [] ∧ ∀ b ∈ digits, isDigitByte b = true) ∧ ofDigitBytes digits = n := by
  have decimal : (digits.map Char.ofUInt8).all Char.isDigit = true ↔
      ∀ b ∈ digits, isDigitByte b = true := by
    simp only [List.all_map, List.all_eq_true, Function.comp_apply, isDigit_ofUInt8]
  rw [natural?, Option.ite_none_right_eq_some, decimal, ofDigitChars_map, Option.some.injEq, ne_eq,
    List.map_eq_nil_iff]

/-- A text that denotes an integer is ASCII. -/
theorem ascii_of_parse? {cs : List Char} {v : Int} (parsed : parse? cs = some v) :
    ∀ c ∈ cs, c.toNat < 0x80 := by
  have digits : ∀ {cs n}, natural? cs = some n → ∀ c ∈ cs, c.toNat < 0x80 := by
    intro cs n known c member
    simp only [natural?, Option.ite_none_right_eq_some] at known
    have digit := List.all_eq_true.mp known.1.2 c member
    simp only [Char.isDigit, Bool.and_eq_true, decide_eq_true_eq, UInt32.le_iff_toNat_le] at digit
    have greatest : c.toNat ≤ 0x39 := digit.2
    omega
  unfold parse? at parsed
  split at parsed <;> simp only [Option.map_eq_some_iff] at parsed <;>
    obtain ⟨n, known, -⟩ := parsed
  · exact List.forall_mem_cons.mpr ⟨by decide, digits known⟩
  · exact List.forall_mem_cons.mpr ⟨by decide, digits known⟩
  · exact digits known

/-- A text without a sign denotes a natural number. -/
theorem parse?_unsigned {c : Char} (minus : c ≠ '-') (plus : c ≠ '+') (cs : List Char) :
    parse? (c :: cs) = (natural? (c :: cs)).map fun n : Nat => (n : Int) := by
  unfold parse?
  split
  · next same => exact absurd (List.cons.inj same).1 minus
  · next same => exact absurd (List.cons.inj same).1 plus
  · rfl

theorem ofUInt8_injective : Function.Injective Char.ofUInt8 := by
  intro a b same
  rw [← UInt8.toNat_inj, ← Utf8.toNat_ofUInt8, ← Utf8.toNat_ofUInt8, same]

theorem Denotes.ascii {token : List UInt8} {v : Int} (denotes : Denotes token v) :
    ∀ b ∈ token, b.toNat < 0x80 := by
  have digits : ∀ {b}, isDigitByte b = true → b.toNat < 0x80 := by
    intro b digit
    simp only [isDigitByte, Bool.and_eq_true, decide_eq_true_eq, UInt8.le_iff_toNat_le] at digit
    have greatest : b.toNat ≤ 0x39 := digit.2
    omega
  cases denotes with
  | unsigned some decimal => exact fun b member => digits (decimal b member)
  | plus some decimal | minus some decimal =>
    exact List.forall_mem_cons.mpr ⟨by decide, fun b member => digits (decimal b member)⟩

/-- A text of ASCII bytes denotes what the bytes denote. -/
theorem parse?_map {token : List UInt8} {v : Int} :
    parse? (token.map Char.ofUInt8) = some v ↔ Denotes token v := by
  have minus_sign : Char.ofUInt8 0x2D = '-' := rfl
  have plus_sign : Char.ofUInt8 0x2B = '+' := rfl
  constructor
  · intro parsed
    cases token with
    | nil => cases parsed
    | cons b digits =>
      rw [List.map_cons] at parsed
      by_cases minus : b = 0x2D
      · rw [minus, minus_sign, parse?, Option.map_eq_some_iff] at parsed
        obtain ⟨n, known, rfl⟩ := parsed
        obtain ⟨⟨some, decimal⟩, rfl⟩ := natural?_map.mp known
        rw [minus]
        exact .minus some decimal
      · by_cases plus : b = 0x2B
        · rw [plus, plus_sign, parse?, Option.map_eq_some_iff] at parsed
          obtain ⟨n, known, rfl⟩ := parsed
          obtain ⟨⟨some, decimal⟩, rfl⟩ := natural?_map.mp known
          rw [plus]
          exact .plus some decimal
        · rw [parse?_unsigned (minus_sign ▸ ofUInt8_injective.ne minus)
            (plus_sign ▸ ofUInt8_injective.ne plus), ← List.map_cons,
            Option.map_eq_some_iff] at parsed
          obtain ⟨n, known, rfl⟩ := parsed
          obtain ⟨⟨some, decimal⟩, rfl⟩ := natural?_map.mp known
          exact .unsigned some decimal
  · intro denotes
    cases denotes with
    | unsigned some decimal =>
      have known := natural?_map.mpr ⟨⟨some, decimal⟩, rfl⟩
      cases token with
      | nil => exact absurd rfl some
      | cons b digits =>
        have digit := decimal b List.mem_cons_self
        have minus : b ≠ 0x2D := by rintro rfl; cases digit
        have plus : b ≠ 0x2B := by rintro rfl; cases digit
        rw [List.map_cons] at known ⊢
        rw [parse?_unsigned (minus_sign ▸ ofUInt8_injective.ne minus)
          (plus_sign ▸ ofUInt8_injective.ne plus), known, Option.map_some]
    | plus some decimal =>
      rw [List.map_cons, plus_sign, parse?, natural?_map.mpr ⟨⟨some, decimal⟩, rfl⟩,
        Option.map_some]
    | minus some decimal =>
      rw [List.map_cons, minus_sign, parse?, natural?_map.mpr ⟨⟨some, decimal⟩, rfl⟩,
        Option.map_some]

/-- An integer is a word if it is in range. -/
theorem word_eq_some_iff {v : Int} {w : Int64} : word v = some w ↔ w.toInt = v := by
  rw [word, Option.ite_none_right_eq_some, Option.some.injEq]
  constructor
  · rintro ⟨range, rfl⟩
    have least : Int64.minValue.toInt = -0x8000000000000000 := by decide
    have greatest : Int64.maxValue.toInt = 0x7FFFFFFFFFFFFFFF := by decide
    exact Int64.toInt_ofInt_of_le (by omega) (by omega)
  · rintro rfl
    exact ⟨⟨Int64.minValue_le_toInt w, Int64.toInt_le w⟩, Int64.ofInt_toInt w⟩

/-- **A token is read as a word** if and only if it denotes it. -/
theorem word?_decode_eq_some_iff {token : List UInt8} {v : Int64} :
    word? (Utf8.decode token) = some v ↔ Denotes token v.toInt := by
  have read : word? (Utf8.decode token) = some v ↔ parse? (Utf8.decode token) = some v.toInt := by
    rw [word?_eq, Option.bind_eq_some_iff]
    simp only [word_eq_some_iff, exists_eq_right']
  rw [read]
  constructor
  · intro parsed
    have ascii := Utf8.ascii_of_decode (ascii_of_parse? parsed)
    rw [Utf8.decode_of_ascii ascii] at parsed
    exact parse?_map.mp parsed
  · intro denotes
    rw [Utf8.decode_of_ascii denotes.ascii]
    exact parse?_map.mpr denotes

end Whitespace.Decimal
