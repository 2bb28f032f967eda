/-!
# Decimal integers

Numbers are printed and read in decimal: an optional sign and digits `0` to `9`.  Printing uses no
plus sign and no leading zeros; reading accepts both.

A word has at most nineteen digits behind leading zeros.  A longer text is refused without computing
the number it denotes, which changes nothing (`word?_eq`).
-/

namespace Whitespace.Decimal

/-- The decimal digits of a number. -/
def digits (n : Nat) : List Char :=
  Nat.toDigits 10 n

/-- An integer in decimal, with a minus sign if it is negative. -/
def render (v : Int) : List Char :=
  if v < 0 then '-' :: digits v.natAbs else digits v.natAbs

/-- The number that decimal digits denote; at least one digit is needed. -/
def natural? (cs : List Char) : Option Nat :=
  if cs ≠ [] ∧ cs.all Char.isDigit then some (Nat.ofDigitChars 10 cs 0) else none

/-- The integer that an optional sign and decimal digits denote. -/
def parse? : List Char → Option Int
  | '-' :: cs => (natural? cs).map fun n : Nat => -(n : Int)
  | '+' :: cs => (natural? cs).map fun n : Nat => (n : Int)
  | cs => (natural? cs).map fun n : Nat => (n : Int)

/-- A text without its sign and leading zeros. -/
def significant (cs : List Char) : List Char :=
  let unsigned :=
    match cs with
    | '-' :: cs => cs
    | '+' :: cs => cs
    | cs => cs
  unsigned.dropWhile (· == '0')

/-- The most digits of a word. -/
def mostDigits : Nat :=
  19

/-- The signed 64-bit word that an integer is, if it is in their range. -/
def word (v : Int) : Option Int64 :=
  if Int64.minValue.toInt ≤ v ∧ v ≤ Int64.maxValue.toInt then some (Int64.ofInt v) else none

/-- The signed 64-bit word that a decimal text denotes; numbers outside its range are refused. -/
def word? (cs : List Char) : Option Int64 :=
  if mostDigits < (significant cs).length then none else (parse? cs).bind word

/-- A word in decimal. -/
def text (v : Int64) : String :=
  String.ofList (render v.toInt)

/-! ### Long texts -/

theorem ofDigitChars_dropWhile (cs : List Char) :
    Nat.ofDigitChars 10 (cs.dropWhile (· == '0')) 0 = Nat.ofDigitChars 10 cs 0 := by
  induction cs with
  | nil => rfl
  | cons c cs ih =>
    by_cases zero : c = '0'
    · subst zero
      simpa [Nat.ofDigitChars_cons] using ih
    · simp [zero]

/-- A number whose first digit is not zero is not less than the least number of as many digits. -/
theorem pow_le_ofDigitChars {c : Char} (cs : List Char) (digit : c.isDigit) (nonzero : c ≠ '0') :
    Nat.pow 10 cs.length ≤ Nat.ofDigitChars 10 (c :: cs) 0 := by
  have positive : 1 ≤ c.toNat - '0'.toNat := by
    simp only [Char.isDigit, Bool.and_eq_true, decide_eq_true_eq, ge_iff_le, UInt32.le_iff_toNat_le]
      at digit
    have : c.toNat ≠ '0'.toNat := fun h => nonzero (Char.toNat_inj.mp h)
    have least : '0'.toNat ≤ c.toNat := digit.1
    omega
  rw [Nat.ofDigitChars_cons, Nat.ofDigitChars_eq_ofDigitChars_zero]
  exact Nat.le_trans (Nat.le_mul_of_pos_right _ (by omega)) (Nat.le_add_right _ _)

/-- Digits that are more than those of a word denote a number above the greatest magnitude. -/
theorem lt_of_natural? {cs : List Char} {n : Nat} (h : natural? cs = some n)
    (long : mostDigits < (cs.dropWhile (· == '0')).length) : 0x8000000000000000 < n := by
  simp only [natural?, Option.ite_none_right_eq_some, Option.some.injEq] at h
  obtain ⟨⟨-, digits⟩, rfl⟩ := h
  rw [← ofDigitChars_dropWhile]
  cases shape : cs.dropWhile (· == '0') with
  | nil => simp [shape] at long
  | cons c rest =>
    have member : c ∈ cs := (List.dropWhile_sublist _).subset (shape ▸ List.mem_cons_self)
    have nonzero : c ≠ '0' := by
      have := List.head_dropWhile_not (· == '0') (l := cs) (by simp [shape])
      simpa [shape] using this
    have large := pow_le_ofDigitChars rest (List.all_eq_true.mp digits c member) nonzero
    have digits : 19 ≤ rest.length := by
      rw [shape, List.length_cons, mostDigits] at long
      omega
    have : 10000000000000000000 ≤ Nat.pow 10 rest.length :=
      Nat.pow_le_pow_right (n := 10) (by decide) digits
    omega

/-- Refusing long texts changes nothing. -/
theorem word?_eq (cs : List Char) : word? cs = (parse? cs).bind word := by
  have least : Int64.minValue.toInt = -0x8000000000000000 := by decide
  have greatest : Int64.maxValue.toInt = 0x7FFFFFFFFFFFFFFF := by decide
  rw [word?]
  split
  · next long =>
    cases parsed : parse? cs with
    | none => rfl
    | some v =>
      unfold parse? at parsed
      unfold significant at long
      split at parsed <;> simp only [Option.map_eq_some_iff] at parsed <;>
        obtain ⟨n, hn, rfl⟩ := parsed <;>
        simp only [Option.bind_some, word, least, greatest]
      · have := lt_of_natural? hn long
        rw [if_neg (by omega)]
      · have := lt_of_natural? hn long
        rw [if_neg (by omega)]
      · have := lt_of_natural? hn (by simpa using long)
        rw [if_neg (by omega)]
  · rfl

end Whitespace.Decimal
