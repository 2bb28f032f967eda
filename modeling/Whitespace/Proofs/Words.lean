import Mathlib.Data.Int.ModEq
import Whitespace.Proofs.Effect

/-!
# Words and the integers they stand for

Words are the integers modulo `2 ^ 64`: every integer is congruent to one word and to no other
(`congruent_iff`).  What a calculation is to give can therefore be said of exact integers alone,
without mention of words that wrap (`Calculation.Yields`), and it is the word of the exact result
(`Calculation.yields_iff`).

The quotient is exact but for one pair of words, the least one and minus one, whose quotient is no
word.  There it wraps, and the remainder is zero; so quotient and remainder make up the dividend for
every pair, modulo `2 ^ 64` (`Calculation.quotient_remainder`).

## Main definitions

* `Congruent x n` — the word is the integer, modulo `2 ^ 64`.
* `Calculation.Yields calculation left right x` — what the calculation is to give.
* `Calculation.Overflows calculation left right` — the exact result is no word.
-/

namespace Whitespace

/-- A word is congruent to an integer modulo `2 ^ 64`. -/
def Congruent (x : Int64) (n : Int) : Prop :=
  x.toInt ≡ n [ZMOD 0x10000000000000000]

instance (x : Int64) (n : Int) : Decidable (Congruent x n) :=
  inferInstanceAs (Decidable (_ ≡ _ [ZMOD _]))

/-- **Every integer has one word.** -/
theorem congruent_iff {x : Int64} {n : Int} : Congruent x n ↔ x = .ofInt n := by
  have size : (Int64.size : Int) = 0x10000000000000000 := rfl
  constructor
  · intro same
    rw [Congruent, Int.ModEq, ← size] at same
    apply Int64.toInt_inj.mp
    rw [Int64.toInt_ofInt, ← Int.emod_bmod, ← same, Int.emod_bmod, Int64.toInt_bmod_size]
  · rintro rfl
    rw [Congruent, Int.ModEq, Int64.toInt_ofInt, ← size, Int.bmod_emod]

/-- An integer that some word is, is that of its own word alone. -/
theorem eq_ofInt_iff_of_toInt {word x : Int64} {n : Int} (exact : word.toInt = n) :
    x.toInt = n ↔ x = .ofInt n := by
  rw [← exact, Int64.ofInt_toInt, Int64.toInt_inj]

theorem toInt_ne_zero {x : Int64} (nonzero : x ≠ 0) : x.toInt ≠ 0 := by
  rwa [ne_eq, ← Int64.toInt_zero, Int64.toInt_inj]

namespace Calculation

/-- What a calculation is to give, said of exact integers.  Sums, differences and products are taken
modulo `2 ^ 64`.  A quotient is truncated toward zero, and that of the least word and minus one is
the least word.  A remainder is what the truncated quotient leaves, smaller than the divisor and
with the sign of the dividend. -/
def Yields (calculation : Calculation) (left right x : Int64) : Prop :=
  match calculation with
  | add => Congruent x (left.toInt + right.toInt)
  | subtract => Congruent x (left.toInt - right.toInt)
  | multiply => Congruent x (left.toInt * right.toInt)
  | divide =>
    right ≠ 0 ∧
      if left = Int64.minValue ∧ right = -1 then x = Int64.minValue
      else x.toInt = left.toInt.tdiv right.toInt
  | modulo =>
    left.toInt = right.toInt * left.toInt.tdiv right.toInt + x.toInt ∧
      x.toInt.natAbs < right.toInt.natAbs ∧ (x = 0 ∨ x.toInt.sign = left.toInt.sign)

/-- The exact result of a calculation is no word. -/
def Overflows (calculation : Calculation) (left right : Int64) : Prop :=
  ∀ x : Int64, x.toInt ≠ calculation.exact left.toInt right.toInt

variable {calculation : Calculation} {left right x quotient remainder : Int64}

/-- A truncated quotient is a word, but for one pair. -/
theorem toInt_div (fits : ¬(left = Int64.minValue ∧ right = -1)) :
    (left / right).toInt = left.toInt.tdiv right.toInt := by
  by_cases least : left = Int64.minValue
  · exact Int64.toInt_div_of_ne_right left right fun minus => fits ⟨least, minus⟩
  · exact Int64.toInt_div_of_ne_left left right least

/-- The remainder that a truncated quotient leaves. -/
theorem yields_modulo_iff (nonzero : right ≠ 0) :
    modulo.Yields left right x ↔ x.toInt = left.toInt.tmod right.toInt := by
  constructor
  · rintro ⟨split, -⟩
    have division := Int.mul_tdiv_add_tmod left.toInt right.toInt
    omega
  · intro same
    have word : x = left % right := by
      rw [← Int64.toInt_inj, same, Int64.toInt_mod]
    refine ⟨?_, ?_, ?_⟩
    · rw [same, Int.mul_tdiv_add_tmod]
    · rw [same, Int.natAbs_tmod]
      exact Nat.mod_lt _ (Int.natAbs_pos.mpr (toInt_ne_zero nonzero))
    · by_cases divides : right.toInt ∣ left.toInt
      · left
        rw [← Int64.toInt_inj, same, Int.dvd_iff_tmod_eq_zero.mp divides, Int64.toInt_zero]
      · right
        rw [same, Int.sign_tmod, if_neg divides]

/-- **What a calculation is to give is the word of its exact result**, unless it divides by zero. -/
theorem yields_iff (defined : ¬(calculation.divides = true ∧ right = 0)) :
    calculation.Yields left right x ↔
      x = .ofInt (calculation.exact left.toInt right.toInt) := by
  cases calculation with
  | add | subtract | multiply => exact congruent_iff
  | divide =>
    have nonzero : right ≠ 0 := fun zero => defined ⟨rfl, zero⟩
    rw [Yields, exact]
    by_cases corner : left = Int64.minValue ∧ right = -1
    · obtain ⟨rfl, rfl⟩ := corner
      have wraps : Int64.ofInt (Int64.minValue.toInt.tdiv (-1 : Int64).toInt) = Int64.minValue := by
        decide
      rw [if_pos ⟨rfl, rfl⟩, wraps]
      exact and_iff_right nonzero
    · rw [if_neg corner, eq_ofInt_iff_of_toInt (toInt_div corner)]
      exact and_iff_right nonzero
  | modulo =>
    have nonzero : right ≠ 0 := fun zero => defined ⟨rfl, zero⟩
    rw [yields_modulo_iff nonzero, exact, eq_ofInt_iff_of_toInt (Int64.toInt_mod left right)]

/-- A division by zero does not overflow, whatever its exact result is taken to be. -/
theorem Overflows.defined (overflows : calculation.Overflows left right) :
    ¬(calculation.divides = true ∧ right = 0) := by
  rintro ⟨divides, rfl⟩
  cases calculation with
  | add | subtract | multiply => cases divides
  | divide => exact overflows 0 (by simp [exact])
  | modulo => exact overflows left (by simp [exact])

/-- The least word, divided by minus one, gives itself and leaves nothing. -/
theorem corner (divided : divide.Yields Int64.minValue (-1) quotient)
    (rest : modulo.Yields Int64.minValue (-1) remainder) :
    quotient = Int64.minValue ∧ remainder = 0 := by
  obtain ⟨-, small, -⟩ := rest
  obtain ⟨-, divided⟩ := divided
  refine ⟨by rwa [if_pos ⟨rfl, rfl⟩] at divided, ?_⟩
  have one : (-1 : Int64).toInt.natAbs = 1 := by decide
  rw [one] at small
  rw [← Int64.toInt_inj, Int64.toInt_zero]
  omega

/-- **Quotient and remainder make up the dividend**, modulo `2 ^ 64`. -/
theorem quotient_remainder (divided : divide.Yields left right quotient)
    (rest : modulo.Yields left right remainder) :
    Congruent left (quotient.toInt * right.toInt + remainder.toInt) := by
  by_cases least : left = Int64.minValue ∧ right = -1
  · obtain ⟨rfl, rfl⟩ := least
    obtain ⟨rfl, rfl⟩ := corner divided rest
    decide
  · obtain ⟨split, -⟩ := rest
    obtain ⟨-, divided⟩ := divided
    rw [if_neg least] at divided
    rw [divided, Int.mul_comm, ← split]
    exact Int.ModEq.refl _

end Calculation

end Whitespace
