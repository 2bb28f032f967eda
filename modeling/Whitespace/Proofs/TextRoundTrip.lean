import Mathlib.Data.List.Forall2
import Whitespace.Proofs.SignificantText
import Whitespace.Reading.Character
import Whitespace.Reading.Number

/-!
# What is spelled can be read

Characters are spelled in bytes and numbers in decimal.  Both spellings are read back: a text is
decoded from its bytes (`Utf8.decode_flatMap`), and a word from its decimal form
(`Decimal.word?_render`).

The first byte of a character owes bytes, each within bounds; the bytes behind it are those owed
(`Utf8.utf8EncodeChar_owed`).  This is all that decoding looks at before it has the whole character.
-/

namespace Whitespace.Utf8

/-- The bounds of the bytes owed behind a first byte that is given as a number. -/
theorem owed_ofNat {n : Nat} (small : n < 0x100) :
    owed (UInt8.ofNat n) =
      if n < 0x80 then some []
      else if n < 0xC2 then none
      else if n < 0xE0 then some [{}]
      else if n = 0xE0 then some [⟨0xA0, 0xBF⟩, {}]
      else if n = 0xED then some [⟨0x80, 0x9F⟩, {}]
      else if n < 0xF0 then some [{}, {}]
      else if n = 0xF0 then some [⟨0x90, 0xBF⟩, {}, {}]
      else if n < 0xF4 then some [{}, {}, {}]
      else if n = 0xF4 then some [⟨0x80, 0x8F⟩, {}, {}]
      else none := by
  have number : (UInt8.ofNat n).toNat = n := UInt8.toNat_ofNat_of_lt' small
  simp only [owed, UInt8.lt_iff_toNat_lt, ← UInt8.toNat_inj, number]
  rfl

/-- A byte that is given as a number is compared as a number. -/
theorem admits_ofNat {bounds : Bounds} {n : Nat} (small : n < 0x100) :
    bounds.admits (UInt8.ofNat n) = true ↔ bounds.least.toNat ≤ n ∧ n ≤ bounds.greatest.toNat := by
  have number : (UInt8.ofNat n).toNat = n := UInt8.toNat_ofNat_of_lt' small
  simp only [Bounds.admits, Bool.and_eq_true, decide_eq_true_eq, UInt8.le_iff_toNat_le, number]

/-- Six bits behind a mark continue a character. -/
theorem admits_continuation (bits : Nat) (six : bits < 0x40) :
    ({} : Bounds).admits (UInt8.ofNat (bits + 0x80)) = true :=
  (admits_ofNat (by omega)).mpr ⟨show 0x80 ≤ _ by omega, show _ ≤ 0xBF by omega⟩

/-- **The bytes behind the first byte of a character** are those that it owes. -/
theorem utf8EncodeChar_owed (c : Char) :
    ∃ first rest bounds, String.utf8EncodeChar c = first :: rest ∧ owed first = some bounds ∧
      List.Forall₂ (fun bounds b => bounds.admits b = true) bounds rest := by
  have valid : c.val.toNat < 0xD800 ∨ 0xDFFF < c.val.toNat ∧ c.val.toNat < 0x110000 := c.valid
  simp only [String.utf8EncodeChar]
  generalize c.val.toNat = v at valid
  split_ifs with one two three
  · refine ⟨_, [], [], rfl, ?_, .nil⟩
    rw [owed_ofNat (by omega), if_pos (by omega)]
  · refine ⟨_, _, [{}], rfl, ?_, .cons (admits_continuation (v % 64) (by omega)) .nil⟩
    rw [owed_ofNat (by omega), if_neg (by omega), if_neg (by omega), if_pos (by omega)]
  · have last := admits_continuation (v % 64) (by omega)
    have middle := admits_continuation (v / 64 % 64) (by omega)
    by_cases overlong : v / 4096 % 16 + 0xE0 = 0xE0
    · refine ⟨_, _, [⟨0xA0, 0xBF⟩, {}], rfl, ?_, .cons ?_ (.cons last .nil)⟩
      · rw [overlong]
        rfl
      · exact (admits_ofNat (by omega)).mpr ⟨show 0xA0 ≤ _ by omega, show _ ≤ 0xBF by omega⟩
    · by_cases surrogate : v / 4096 % 16 + 0xE0 = 0xED
      · refine ⟨_, _, [⟨0x80, 0x9F⟩, {}], rfl, ?_, .cons ?_ (.cons last .nil)⟩
        · rw [surrogate]
          rfl
        · exact (admits_ofNat (by omega)).mpr ⟨show 0x80 ≤ _ by omega, show _ ≤ 0x9F by omega⟩
      · refine ⟨_, _, [{}, {}], rfl, ?_, .cons middle (.cons last .nil)⟩
        rw [owed_ofNat (by omega), if_neg (by omega), if_neg (by omega), if_neg (by omega),
          if_neg overlong, if_neg surrogate, if_pos (by omega)]
  · have last := admits_continuation (v % 64) (by omega)
    have third := admits_continuation (v / 64 % 64) (by omega)
    have second := admits_continuation (v / 4096 % 64) (by omega)
    by_cases overlong : v / 262144 % 8 + 0xF0 = 0xF0
    · refine ⟨_, _, [⟨0x90, 0xBF⟩, {}, {}], rfl, ?_, .cons ?_ (.cons third (.cons last .nil))⟩
      · rw [overlong]
        rfl
      · exact (admits_ofNat (by omega)).mpr ⟨show 0x90 ≤ _ by omega, show _ ≤ 0xBF by omega⟩
    · by_cases high : v / 262144 % 8 + 0xF0 = 0xF4
      · refine ⟨_, _, [⟨0x80, 0x8F⟩, {}, {}], rfl, ?_, .cons ?_ (.cons third (.cons last .nil))⟩
        · rw [high]
          rfl
        · exact (admits_ofNat (by omega)).mpr ⟨show 0x80 ≤ _ by omega, show _ ≤ 0x8F by omega⟩
      · refine ⟨_, _, [{}, {}, {}], rfl, ?_, .cons second (.cons third (.cons last .nil))⟩
        rw [owed_ofNat (by omega), if_neg (by omega), if_neg (by omega), if_neg (by omega),
          if_neg (by omega), if_neg (by omega), if_neg (by omega), if_neg overlong,
          if_pos (by omega)]

/-- The bytes of a character spell it. -/
theorem scalar?_utf8EncodeChar (c : Char) : scalar? (String.utf8EncodeChar c) = some c := by
  have read := ByteArray.utf8DecodeChar?_utf8EncodeChar_append (b := .empty) (c := c)
  rwa [ByteArray.append_empty] at read

/-- Bytes that begin with a character begin with its spelling. -/
theorem exists_of_scalar? {bytes : List UInt8} {c : Char} (begins : scalar? bytes = some c) :
    ∃ more, bytes = String.utf8EncodeChar c ++ more := by
  obtain ⟨more, split⟩ := ByteArray.exists_of_utf8DecodeChar?_eq_some begins
  refine ⟨more.data.toList, ?_⟩
  have lists := congrArg (fun array => array.data.toList) split
  simpa using lists

/-- The bytes owed finish a character. -/
theorem decodeFrom_owed {bounds : Bounds} {more : List Bounds} {rest : List UInt8}
    (paid : List.Forall₂ (fun bounds b => bounds.admits b = true) (bounds :: more) rest)
    (read : List UInt8) (text : Array Char) (bytes : List UInt8) :
    decodeFrom ⟨read, bounds :: more⟩ text (rest ++ bytes) =
      decodeFrom {} (text.push ((scalar? (read.reverse ++ rest)).getD replacement)) bytes := by
  induction more generalizing bounds read rest with
  | nil =>
    obtain ⟨b, _, admitted, none_left, rfl⟩ := List.forall₂_cons_left_iff.mp paid
    cases none_left
    simp [decodeFrom, Place.feed, admitted]
  | cons next more ih =>
    obtain ⟨b, rest, admitted, later, rfl⟩ := List.forall₂_cons_left_iff.mp paid
    have finished := ih later (b :: read)
    simpa [decodeFrom, Place.feed, admitted] using finished

/-- The bytes of a character add it to the text. -/
theorem decodeFrom_utf8EncodeChar (c : Char) (text : Array Char) (bytes : List UInt8) :
    decodeFrom {} text (String.utf8EncodeChar c ++ bytes) = decodeFrom {} (text.push c) bytes := by
  obtain ⟨first, rest, bounds, spelled, owes, paid⟩ := utf8EncodeChar_owed c
  have whole := scalar?_utf8EncodeChar c
  rw [spelled] at whole ⊢
  cases bounds with
  | nil =>
    cases paid
    simp [decodeFrom, Place.feed, begin, owes, whole]
  | cons bounds more =>
    have finished := decodeFrom_owed paid [first] text bytes
    rw [List.reverse_singleton, List.singleton_append, whole] at finished
    simpa [decodeFrom, Place.feed, begin, owes] using finished

/-- **A text is decoded from its bytes.** -/
theorem decode_flatMap (text : List Char) : decode (text.flatMap String.utf8EncodeChar) = text := by
  have added : ∀ read : Array Char,
      (decodeFrom {} read (text.flatMap String.utf8EncodeChar)).toList = read.toList ++ text := by
    induction text with
    | nil => simp [decodeFrom]
    | cons c text ih =>
      intro read
      rw [List.flatMap_cons, decodeFrom_utf8EncodeChar, ih]
      simp
  exact added #[]

end Whitespace.Utf8

/-- The bytes of a text are those of its characters. -/
theorem Whitespace.toList_toUTF8 (text : String) :
    text.toUTF8.toList = text.toList.flatMap String.utf8EncodeChar := by
  rw [byteArray_toList, String.toUTF8_eq_toByteArray, ← String.ofList_toList (s := text),
    String.toByteArray_ofList, List.utf8Encode, List.toList_data_toByteArray, String.toList_ofList]

/-! ## What the reader of characters looks at -/

namespace Whitespace.Reading

open Utf8

/-- A first byte announces as many bytes as it owes, and they are continuations. -/
theorem owed_spec {first : UInt8} {bounds : List Bounds} (owes : owed first = some bounds) :
    continuations first = bounds.length ∧
      ∀ bound ∈ bounds, 0x80 ≤ bound.least ∧ bound.greatest ≤ 0xBF := by
  -- There are only so many bytes.
  have each : ∀ n < 0x100, ∀ bounds ∈ owed (UInt8.ofNat n),
      continuations (UInt8.ofNat n) = bounds.length ∧
        ∀ bound ∈ bounds, 0x80 ≤ bound.least ∧ bound.greatest ≤ 0xBF := by
    decide +kernel
  have same : UInt8.ofNat first.toNat = first := by simp
  have spec := each first.toNat first.toNat_lt bounds (by rw [same]; exact owes)
  rwa [same] at spec

theorem isContinuation_of_admits {b : UInt8} {bound : Bounds}
    (narrow : 0x80 ≤ bound.least ∧ bound.greatest ≤ 0xBF) (admitted : bound.admits b = true) :
    isContinuation b = true := by
  simp only [Bounds.admits, Bool.and_eq_true, decide_eq_true_eq] at admitted
  simp only [isContinuation, Bool.and_eq_true, decide_eq_true_eq]
  exact ⟨UInt8.le_trans narrow.1 admitted.1, UInt8.le_trans admitted.2 narrow.2⟩

end Whitespace.Reading

/-! ## Decimal forms -/

namespace Whitespace.Decimal

/-- Decimal digits denote the number whose digits they are. -/
theorem natural?_digits (n : Nat) : natural? (digits n) = some n := by
  have decimal : (digits n).all Char.isDigit = true :=
    List.all_eq_true.mpr fun c member => Nat.isDigit_of_mem_toDigits (by decide) (by decide) member
  rw [natural?, if_pos ⟨Nat.toDigits_ne_nil, decimal⟩, digits, Nat.ofDigitChars_ten_toDigits]

/-- **An integer is denoted by its decimal form.** -/
theorem parse?_render (v : Int) : parse? (render v) = some v := by
  rw [render]
  split
  · next negative =>
    simp only [parse?, natural?_digits, Option.map_some, Option.some.injEq]
    omega
  · next natural =>
    have decimal : ∀ c ∈ digits v.natAbs, c.isDigit = true := fun c member =>
      Nat.isDigit_of_mem_toDigits (by decide) (by decide) member
    have number := natural?_digits v.natAbs
    have same : ((v.natAbs : Nat) : Int) = v := by omega
    unfold parse?
    split
    · next cs sign =>
      have wrong := decimal '-' (by simp [sign])
      cases wrong
    · next cs sign =>
      have wrong := decimal '+' (by simp [sign])
      cases wrong
    · rw [number, Option.map_some, same]

/-- **A word is read from its decimal form.** -/
theorem word?_render (v : Int64) : word? (render v.toInt) = some v := by
  rw [word?_eq, parse?_render, Option.bind_some, word,
    if_pos ⟨Int64.minValue_le_toInt v, Int64.toInt_le v⟩, Int64.ofInt_toInt]

/-- The decimal form is the usual one. -/
theorem ofList_render (v : Int) : String.ofList (render v) = toString v := by
  rw [Int.toString_eq_repr, Int.repr_eq_if, render]
  have natural : ∀ n : Nat, n.repr = String.ofList (digits n) := fun n =>
    Nat.toString_eq_ofList_toDigits
  split
  · next negative =>
    rw [if_neg (by omega), natural, show (-v).toNat = v.natAbs by omega]
    exact @String.ofList_append ['-'] (digits v.natAbs)
  · next nonnegative =>
    rw [if_pos (by omega), natural, show v.toNat = v.natAbs by omega]

/-- A decimal form consists of a sign and digits. -/
theorem mem_render {v : Int} {c : Char} (member : c ∈ render v) : c = '-' ∨ c.isDigit = true := by
  have digit : ∀ n, c ∈ digits n → c.isDigit = true := fun n member =>
    Nat.isDigit_of_mem_toDigits (by decide) (by decide) member
  rw [render] at member
  split at member
  · exact (List.mem_cons.mp member).imp id (digit _)
  · exact .inr (digit _ member)

theorem render_ne_nil (v : Int) : render v ≠ [] := by
  rw [render]
  split
  · exact List.cons_ne_nil _ _
  · exact Nat.toDigits_ne_nil

end Whitespace.Decimal
