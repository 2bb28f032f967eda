import Whitespace.Proofs.CanonicalSource
import Whitespace.Proofs.Words

/-!
# The words of number literals

A literal may have any number of digits, none at all included.  It is read as the one word that is
congruent to the integer it denotes, modulo `2 ^ 64`, however often the magnitude has wrapped on the
way (`literal_exact`).

The other way round, a word is spelled with its sign and the fewest digits that denote its
magnitude.  There are at most 64 of them: the magnitude of the least word, `2 ^ 63`, has as many.

## Main definitions

* `Literal.Shortest n bits` — no other digits that denote the number are fewer.
* `Literal.ReadAs op tokens v` — a source that goes on with the tokens is read as the word.
-/

namespace Whitespace

namespace Literal

/-- The fewest digits that denote a number. -/
structure Shortest (n : Nat) (bits : List Bool) : Prop where
  denotes : magnitude bits = n
  ne_nil : bits ≠ []
  least : ∀ other, other ≠ [] → magnitude other = n → bits.length ≤ other.length

/-- Where an opcode asks for a number and the source goes on with the tokens, they are read as the
word, and nothing behind them is. -/
def ReadAs (op : NumberOp) (tokens : List Token) (v : Int64) : Prop :=
  ∀ (r : Reader) (rest : List Signal) (context : Array Token),
    r.signals = tokens.map Signal.token ++ rest →
      ∃ r', Decoder.finish (.sign op) r context =
          (.complete (.number op v), r', context ++ tokens.toArray) ∧
        r'.signals = rest ∧ r'.position = r.position + tokens.length

/-! ### The number of digits -/

/-- Digits denote less than a power of two. -/
theorem magnitude_lt (bits : List Bool) : magnitude bits < 2 ^ bits.length := by
  induction bits using List.reverseRecOn with
  | nil => decide
  | append_singleton bits b ih =>
    have digit := b.toNat_le
    rw [magnitude_append, List.length_append, List.length_singleton, Nat.pow_succ]
    omega

/-- A number less than a power of two has few digits. -/
theorem length_digits_le {n k : Nat} (positive : 0 < k) (small : n < 2 ^ k) :
    (digits n).length ≤ k := by
  induction n using digits.induct generalizing k with
  | case1 n one =>
    rw [digits_of_lt one]
    exact positive
  | case2 n large ih =>
    rw [digits, if_neg large, List.length_append, List.length_singleton]
    obtain ⟨k, rfl⟩ := Nat.exists_eq_succ_of_ne_zero (Nat.pos_iff_ne_zero.mp positive)
    rw [Nat.pow_succ] at small
    have more : k ≠ 0 := by
      rintro rfl
      omega
    have half := ih (Nat.pos_of_ne_zero more) (by omega)
    omega

/-- **The digits of a number are the fewest** that denote it. -/
theorem shortest_digits (n : Nat) : Shortest n (digits n) where
  denotes := magnitude_digits n
  ne_nil := digits_ne_nil n
  least other nonempty denotes :=
    length_digits_le (List.length_pos_iff.mpr nonempty) (denotes ▸ magnitude_lt other)

/-- A word is spelled with 66 tokens at most. -/
theorem length_encode_le (v : Int64) : (encode v).length ≤ 66 := by
  have least := Int64.le_toInt v
  have greatest := Int64.toInt_lt v
  have few : (digits v.toInt.natAbs).length ≤ 64 := length_digits_le (by decide) (by omega)
  simp only [encode, spell, List.length_append, List.length_cons, List.length_map, List.length_nil]
  omega

/-! ### Reading -/

/-- **A literal is read as the word of the integer it denotes.** -/
theorem readAs_spell (op : NumberOp) (negative : Bool) (bits : List Bool) :
    ReadAs op (spell negative bits) (.ofInt (value negative bits)) := by
  intro r rest context before
  obtain ⟨outcome, signals, position, tokens⟩ := Decoder.finish_spec (.sign op) r context
  rw [before, Progress.readFrom_literal] at outcome signals position tokens
  exact ⟨(Decoder.finish (.sign op) r context).2.1,
    Prod.ext outcome (Prod.ext rfl tokens), signals, position⟩

/-- The digits of a word's magnitude, with its sign, denote it. -/
theorem ofInt_value_digits (v : Int64) :
    Int64.ofInt (value (v < 0) (digits v.toInt.natAbs)) = v := by
  simp only [Int64.lt_iff_toInt_lt, Int64.toInt_zero, value_digits, Int64.ofInt_toInt]

/-- **Number literals.**

* A sign, any digits and a line feed are read as one word, the only one that is congruent to the
  integer they denote.
* A word is spelled with its sign, which is a tab if it is negative, the fewest digits that denote
  its magnitude, one for zero, and a line feed.  These are 66 tokens at most, and they are read as
  the word. -/
theorem literal_exact (op : NumberOp) :
    (∀ negative bits, ∃ v, ReadAs op (sign negative :: bits.map digit ++ [.lineFeed]) v ∧
      ∀ w, Congruent w (value negative bits) ↔ w = v) ∧
    ∀ v : Int64, ∃ negative bits, encode v = sign negative :: bits.map digit ++ [.lineFeed] ∧
      (sign negative = .tab ↔ v < 0) ∧ Shortest v.toInt.natAbs bits ∧ (v = 0 → bits = [false]) ∧
      (encode v).length ≤ 66 ∧ ReadAs op (encode v) v := by
  constructor
  · intro negative bits
    exact ⟨_, readAs_spell op negative bits, fun w => congruent_iff⟩
  · intro v
    refine ⟨v < 0, digits v.toInt.natAbs, rfl, ?_, shortest_digits _, ?_, length_encode_le v, ?_⟩
    · by_cases negative : v < 0 <;> simp [sign, negative]
    · rintro rfl
      exact digits_of_lt (by decide)
    · have read := readAs_spell op (v < 0) (digits v.toInt.natAbs)
      rwa [ofInt_value_digits] at read

/-- A one and 64 zeros denote `2 ^ 64`, and are read as zero. -/
theorem literal_exact_long :
    let tokens := sign false :: (true :: List.replicate 64 false).map digit ++ [Token.lineFeed]
    ∃ r', Decoder.finish (.sign .push) { input := .ofBytes (tokens.map Token.byte) } #[] =
      (.complete (.number .push 0), r', tokens.toArray) ∧ r'.position = 67 := by
  intro tokens
  obtain ⟨v, read, only⟩ := (literal_exact .push).1 false (true :: List.replicate 64 false)
  obtain rfl : 0 = v := (only 0).mp (by decide)
  have signals : (Input.ofBytes (tokens.map Token.byte)).signals =
      tokens.map Signal.token ++ [] := by
    rw [(Input.reliable_ofBytes _).signals_eq, Input.bytes_ofBytes, significant_map_byte,
      List.append_nil]
  obtain ⟨r', finished, -, position⟩ := read { input := .ofBytes (tokens.map Token.byte) } [] #[]
    signals
  rw [Array.empty_append] at finished
  exact ⟨r', finished, position⟩

end Literal

end Whitespace
