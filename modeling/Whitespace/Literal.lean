import Whitespace.Token

/-!
# Number literals

A number is spelled as a sign (space for plus, tab for minus), the binary digits of its magnitude
with the most significant first (space for zero, tab for one) and a line feed.  A literal may have
any number of digits; its value is taken modulo `2 ^ 64` into the signed 64-bit words that programs
compute with.

`Literal.encode` spells a word with the fewest digits.  Reading goes digit by digit: `Literal.shift`
appends one digit to a magnitude and `Literal.signed` applies the sign.  `Literal.value` is the
exact integer that a sign and some digits denote; reading gives the word congruent to it
(`signed_foldl_shift`), and the digits of a number denote that number (`value_digits`).
-/

namespace Whitespace

namespace Literal

/-- The binary digits of a number, most significant first; zero has one digit. -/
def digits (n : Nat) : List Bool :=
  if n < 2 then [n == 1] else digits (n / 2) ++ [n % 2 == 1]

/-- A binary digit as it is spelled. -/
def digit : Bool → Token
  | false => .space
  | true => .tab

/-- A sign as it is spelled. -/
def sign (negative : Bool) : Token :=
  if negative then .tab else .space

/-- A sign and binary digits as they are spelled. -/
def spell (negative : Bool) (bits : List Bool) : List Token :=
  sign negative :: bits.map digit ++ [.lineFeed]

/-- The spelling of a word with the fewest digits. -/
def encode (v : Int64) : List Token :=
  spell (v < 0) (digits v.toInt.natAbs)

/-- The magnitude after one more digit, in 64-bit arithmetic. -/
def shift (magnitude : Int64) (bit : Bool) : Int64 :=
  magnitude * 2 + (if bit then 1 else 0)

/-- A magnitude with its sign, in 64-bit arithmetic. -/
def signed (negative : Bool) (magnitude : Int64) : Int64 :=
  if negative then -magnitude else magnitude

/-- The exact number that some binary digits denote. -/
def magnitude (bits : List Bool) : Nat :=
  bits.foldl (fun n b => 2 * n + b.toNat) 0

/-- The exact integer that a sign and some binary digits denote. -/
def value (negative : Bool) (bits : List Bool) : Int :=
  if negative then -(magnitude bits : Int) else magnitude bits

/-! ### Digits and numbers -/

theorem magnitude_append (bits : List Bool) (b : Bool) :
    magnitude (bits ++ [b]) = 2 * magnitude bits + b.toNat := by
  simp [magnitude, List.foldl_append]

theorem magnitude_digits (n : Nat) : magnitude (digits n) = n := by
  induction n using digits.induct with
  | case1 n small =>
    have : n = 0 ∨ n = 1 := by omega
    rw [digits, if_pos small]
    rcases this with rfl | rfl <;> rfl
  | case2 n large ih =>
    rw [digits, if_neg large, magnitude_append, ih]
    have : n % 2 = 0 ∨ n % 2 = 1 := by omega
    rcases this with h | h <;> simp only [h] <;> simp <;> omega

/-- The digits of an integer's magnitude, with its sign, denote it. -/
theorem value_digits (v : Int) : value (v < 0) (digits v.natAbs) = v := by
  simp only [value, magnitude_digits, decide_eq_true_eq]
  split <;> omega

/-- Reading digit by digit keeps the exact number modulo `2 ^ 64`. -/
theorem foldl_shift (bits : List Bool) :
    bits.foldl shift 0 = Int64.ofNat (magnitude bits) := by
  suffices ∀ n : Nat, bits.foldl shift (Int64.ofNat n) =
      Int64.ofNat (bits.foldl (fun n b => 2 * n + b.toNat) n) from this 0
  induction bits with
  | nil => exact fun _ => rfl
  | cons b bits ih =>
    intro n
    rw [List.foldl_cons, List.foldl_cons, ← ih]
    congr 1
    cases b
    · simp [shift, Int64.ofNat_mul, Int64.mul_comm]
    · simp [shift, Int64.ofNat_mul, Int64.ofNat_add, Int64.mul_comm]

/-- A literal is read as the word congruent to the integer it denotes. -/
theorem signed_foldl_shift (negative : Bool) (bits : List Bool) :
    signed negative (bits.foldl shift 0) = Int64.ofInt (value negative bits) := by
  rw [foldl_shift]
  cases negative
  · simp [signed, value, Int64.ofInt_eq_ofNat]
  · simp [signed, value, Int64.ofInt_neg, Int64.ofInt_eq_ofNat]

end Literal

end Whitespace
