import Mathlib.Data.List.Induction
import Whitespace.Proofs.RoundTrip

/-!
# Sources that encoding gives back

What is encoded is decoded again; the other way round something may be lost, for a number can be
spelled in many ways.  A source that has been decoded is its program's canonical source, character
for character, if and only if every literal in it is canonical (`encode_eq_iff_canonical`): zero is
one digit behind a plus sign, any other magnitude begins with a one, and it is that of a word.

The digits of a number are the only ones that denote it and begin with a one
(`Literal.digits_magnitude`), so this is a statement about one literal
(`Literal.encode_eq_spell_iff`), then about one instruction
(`Instruction.IsSpelling.source_eq_iff`).

## Main definitions

* `Literal.Canonical negative bits` — the sign and the digits are those of a word.
* `Literal.OccursIn source negative bits` — the literal is one of those that the source spells.
-/

namespace Whitespace

namespace Literal

/-- A literal that begins with a one, or is a single zero, and is in the range of a word.  There is
one negative word more than there are positive ones, and no negative zero. -/
def Canonical (negative : Bool) (bits : List Bool) : Prop :=
  if negative then bits.head? = some true ∧ magnitude bits ≤ 0x8000000000000000
  else bits = [false] ∨ bits.head? = some true ∧ magnitude bits ≤ 0x7FFFFFFFFFFFFFFF

instance (negative : Bool) (bits : List Bool) : Decidable (Canonical negative bits) :=
  inferInstanceAs (Decidable (if negative then _ else _))

/-! ### Digits -/

/-- Zero and one have one digit. -/
theorem digits_of_lt {n : Nat} (small : n < 2) : digits n = [n == 1] := by
  rw [digits, if_pos small]

theorem digits_ne_nil (n : Nat) : digits n ≠ [] := by
  rw [digits]
  split <;> simp

/-- The digits of a number begin with a one, unless it is zero. -/
theorem head?_digits {n : Nat} (positive : 0 < n) : (digits n).head? = some true := by
  induction n using digits.induct with
  | case1 n small =>
    have one : (n == 1) = true := by simp; omega
    rw [digits_of_lt small, one]
    rfl
  | case2 n large ih =>
    rw [digits, if_neg large, List.head?_append_of_ne_nil _ (digits_ne_nil _)]
    exact ih (by omega)

/-- A first digit that is a one is worth something. -/
theorem magnitude_pos {bits : List Bool} (one : bits.head? = some true) : 0 < magnitude bits := by
  induction bits using List.reverseRecOn with
  | nil => simp at one
  | append_singleton bits b ih =>
    rw [magnitude_append]
    cases bits with
    | nil =>
      have : b = true := by simpa using one
      simp [this]
    | cons first bits =>
      have := ih (by simpa using one)
      omega

/-- **Digits that begin with a one are those of their number.** -/
theorem digits_magnitude {bits : List Bool} (one : bits.head? = some true) :
    digits (magnitude bits) = bits := by
  induction bits using List.reverseRecOn with
  | nil => simp at one
  | append_singleton bits b ih =>
    rw [magnitude_append]
    cases bits with
    | nil =>
      have : b = true := by simpa using one
      subst this
      exact digits_of_lt (by decide)
    | cons first bits =>
      have one : (first :: bits).head? = some true := by simpa using one
      have positive := magnitude_pos one
      have half : (2 * magnitude (first :: bits) + b.toNat) / 2 = magnitude (first :: bits) := by
        have := b.toNat_le
        omega
      have last : ((2 * magnitude (first :: bits) + b.toNat) % 2 == 1) = b := by
        cases b <;> simp
      rw [digits, if_neg (by omega), half, last, ih one]

/-! ### Spellings of literals -/

theorem digit_injective : Function.Injective digit := by
  intro a b same
  cases a <;> cases b <;> trivial

/-- A literal is read off its spelling. -/
theorem spell_inj {negative negative' : Bool} {bits bits' : List Bool} :
    spell negative bits = spell negative' bits' ↔ negative = negative' ∧ bits = bits' := by
  constructor
  · intro same
    have signs : sign negative = sign negative' := (List.cons.inj same).1
    have digits := List.append_cancel_right (List.cons.inj same).2
    refine ⟨?_, List.map_injective_iff.mpr digit_injective digits⟩
    cases negative <;> cases negative' <;> trivial
  · rintro ⟨rfl, rfl⟩
    rfl

/-- The digits of a word's magnitude, with its sign, are canonical. -/
theorem canonical_digits (v : Int64) : Canonical (v < 0) (digits v.toInt.natAbs) := by
  have least := Int64.le_toInt v
  have greatest := Int64.toInt_lt v
  have negative : v < 0 ↔ v.toInt < 0 := by
    rw [Int64.lt_iff_toInt_lt, Int64.toInt_zero]
  rw [Canonical, magnitude_digits]
  by_cases below : v.toInt < 0
  · rw [if_pos (by simpa [negative] using below)]
    exact ⟨head?_digits (by omega), by omega⟩
  · rw [if_neg (by simpa [negative] using below)]
    by_cases zero : v.toInt = 0
    · left
      rw [zero]
      exact digits_of_lt (by decide)
    · exact .inr ⟨head?_digits (by omega), by omega⟩

/-- **A literal is spelled as its word is** if and only if it is canonical. -/
theorem encode_eq_spell_iff (negative : Bool) (bits : List Bool) :
    encode (.ofInt (value negative bits)) = spell negative bits ↔ Canonical negative bits := by
  rw [encode, spell_inj]
  constructor
  · intro same
    have canonical := canonical_digits (.ofInt (value negative bits))
    rwa [same.1, same.2] at canonical
  · intro canonical
    rw [Canonical] at canonical
    cases negative with
    | true =>
      obtain ⟨one, small⟩ :
          bits.head? = some true ∧ magnitude bits ≤ 0x8000000000000000 := canonical
      have positive := magnitude_pos one
      have exact : (Int64.ofInt (value true bits)).toInt = -(magnitude bits : Int) :=
        Int64.toInt_ofInt_of_le (by simp [value]; omega) (by simp [value]; omega)
      have below : Int64.ofInt (value true bits) < 0 := by
        rw [Int64.lt_iff_toInt_lt, exact, Int64.toInt_zero]
        omega
      rw [exact, Int.natAbs_neg, Int.natAbs_natCast, digits_magnitude one]
      simp [below]
    | false =>
      have small : magnitude bits < 0x8000000000000000 ∧ digits (magnitude bits) = bits := by
        obtain rfl | ⟨one, small⟩ :
            bits = [false] ∨ bits.head? = some true ∧ magnitude bits ≤ 0x7FFFFFFFFFFFFFFF :=
          canonical
        · exact ⟨by decide, digits_of_lt (by decide)⟩
        · exact ⟨by omega, digits_magnitude one⟩
      have exact : (Int64.ofInt (value false bits)).toInt = (magnitude bits : Int) :=
        Int64.toInt_ofInt_of_le (by simp only [value]; omega) (by simp only [value]; omega)
      have above : ¬Int64.ofInt (value false bits) < 0 := by
        rw [Int64.lt_iff_toInt_lt, exact, Int64.toInt_zero]
        omega
      rw [exact, Int.natAbs_natCast, small.2]
      simp [above]

/-- A source spells a literal: it is the operand of one of the instructions into which the source is
divided. -/
def OccursIn (source : Input) (negative : Bool) (bits : List Bool) : Prop :=
  ∃ is words op, List.Forall₂ Instruction.IsSpelling is words ∧
    words.flatten = significant source.bytes ∧
    (Opcode.number op).code ++ spell negative bits ∈ words

end Literal

/-! ## Instructions and programs -/

theorem Token.char_injective : Function.Injective Token.char := by
  intro s t same
  cases s <;> cases t <;> first | rfl | cases same

namespace Instruction

/-! The canonical source of an instruction consists of significant characters if its label, if it
has one, is over spaces and tabs. -/

theorem source_number (op : NumberOp) (v : Int64) :
    (number op v).source = ((Opcode.number op).code ++ Literal.encode v).map Token.char := by
  rw [source, operandSource, List.map_append]
  rfl

theorem source_label (op : LabelOp) (name : List Token) :
    (label op (.ofTokens name)).source =
      ((Opcode.label op).code ++ (name ++ [Token.lineFeed])).map Token.char := by
  rw [source, operandSource, Label.source, Label.ofTokens, List.map_append, List.map_append]
  rfl

theorem source_plain (op : PlainOp) :
    (plain op).source = (Opcode.plain op).code.map Token.char := by
  rw [source, operandSource, List.append_nil]
  rfl

variable {i : Instruction} {word : List Token}

/-- What a source spells has a canonical source of significant characters, which spells it too. -/
theorem IsSpelling.canonical (spelled : IsSpelling i word) :
    ∃ tokens, i.source = tokens.map Token.char ∧ IsSpelling i tokens := by
  cases spelled with
  | number op negative bits => exact ⟨_, source_number op _, isSpelling_encode op _⟩
  | label op name closed => exact ⟨_, source_label op name, isSpelling_label op name closed⟩
  | plain op => exact ⟨_, source_plain op, isSpelling_plain op⟩

/-- Only a number is spelled with a literal. -/
theorem IsSpelling.eq_number {op : NumberOp} {negative : Bool} {bits : List Bool}
    (spelled : IsSpelling i ((Opcode.number op).code ++ Literal.spell negative bits)) :
    i = .number op (.ofInt (Literal.value negative bits)) := by
  have literal := isSpelling_number op negative bits
  exact (spelled.unique literal (congrArg (· ++ []) rfl)).1

/-- **A spelling is the canonical source** of its instruction if and only if the literal in it, if
there is one, is canonical. -/
theorem IsSpelling.source_eq_iff (spelled : IsSpelling i word) :
    i.source = word.map Token.char ↔
      ∀ op negative bits, word = (Opcode.number op).code ++ Literal.spell negative bits →
        Literal.Canonical negative bits := by
  constructor
  · rintro same op negative bits rfl
    rw [spelled.eq_number, source_number] at same
    have tokens := List.map_injective_iff.mpr Token.char_injective same
    exact (Literal.encode_eq_spell_iff negative bits).mp (List.append_cancel_left tokens)
  · intro canonical
    cases spelled with
    | number op negative bits =>
      rw [← Opcode.code_eq_spelling] at canonical ⊢
      have same := (Literal.encode_eq_spell_iff negative bits).mpr (canonical op negative bits rfl)
      rw [source_number, same]
    | label op name closed =>
      rw [← Opcode.code_eq_spelling]
      exact source_label op name
    | plain op =>
      rw [← Opcode.code_eq_spelling]
      exact source_plain op

end Instruction

variable {source : Input} {is : List Instruction} {words : List (List Token)}

/-- The canonical sources of instructions that a source spells. -/
theorem exists_canonical (spelled : List.Forall₂ Instruction.IsSpelling is words) :
    ∃ canonical, List.Forall₂ Instruction.IsSpelling is canonical ∧
      is.map Instruction.source = canonical.map (List.map Token.char) := by
  induction spelled with
  | nil => exact ⟨[], .nil, rfl⟩
  | @cons i word is words first later ih =>
    obtain ⟨tokens, source, here⟩ := first.canonical
    obtain ⟨canonical, there, sources⟩ := ih
    exact ⟨tokens :: canonical, .cons here there, by rw [List.map_cons, source, sources]; rfl⟩

/-- Spellings are the canonical sources of their instructions if and only if all literals in them
are canonical. -/
theorem map_source_eq_iff (spelled : List.Forall₂ Instruction.IsSpelling is words) :
    is.map Instruction.source = words.map (List.map Token.char) ↔
      ∀ op negative bits, (Opcode.number op).code ++ Literal.spell negative bits ∈ words →
        Literal.Canonical negative bits := by
  induction spelled with
  | nil => simp
  | @cons i word is words first later ih =>
    rw [List.map_cons, List.map_cons, List.cons_eq_cons, first.source_eq_iff, ih]
    constructor
    · rintro ⟨here, there⟩ op negative bits member
      cases member with
      | head => exact here op negative bits rfl
      | tail _ member => exact there op negative bits member
    · intro all
      refine ⟨?_, ?_⟩
      · rintro op negative bits rfl
        exact all op negative bits List.mem_cons_self
      · intro op negative bits member
        exact all op negative bits (List.mem_cons_of_mem _ member)

/-- The canonical source of a whole program tells the canonical sources of its instructions. -/
theorem encode_eq_iff (spelled : List.Forall₂ Instruction.IsSpelling is words) :
    encode is = words.flatten.map Token.char ↔
      is.map Instruction.source = words.map (List.map Token.char) := by
  obtain ⟨canonical, spelled', sources⟩ := exists_canonical spelled
  have whole : encode is = canonical.flatten.map Token.char := by
    rw [encode, List.flatMap_def, sources, List.map_flatten]
  rw [whole, sources]
  constructor
  · intro same
    have flat := List.map_injective_iff.mpr Token.char_injective same
    rw [(Instruction.spellings_unique spelled' spelled flat).2]
  · intro same
    rw [List.map_flatten, same, List.map_flatten]

/-- **Encoding gives back a source** that has been decoded, without its comments, if and only if
every literal in it is canonical. -/
theorem encode_eq_iff_canonical (reliable : source.Reliable)
    (decoded : (decode source).map Decoding.instructions = .ok is) :
    encode is = (significant source.bytes).map Token.char ↔
      ∀ negative bits, Literal.OccursIn source negative bits →
        Literal.Canonical negative bits := by
  obtain ⟨⟨words, spelled, flat⟩, -⟩ := words_of_decode reliable decoded
  rw [← flat, encode_eq_iff spelled, map_source_eq_iff spelled]
  constructor
  · rintro all negative bits ⟨is', words', op, spelled', flat', member⟩
    -- A source is divided into spellings in one way only.
    obtain ⟨-, rfl⟩ := Instruction.spellings_unique spelled' spelled (flat'.trans flat.symm)
    exact all op negative bits member
  · intro all op negative bits member
    exact all negative bits ⟨is, words, op, spelled, flat, member⟩

/-- A push of minus zero, with a comment in its literal, is decoded, but it is encoded otherwise. -/
theorem encode_eq_iff_canonical_minus_zero :
    let source := Input.ofBytes [0x20, 0x20, 0x09, 0x78, 0x20, 0x0A]
    (decode source).map Decoding.instructions = .ok [.number .push 0] ∧
      encode [.number .push 0] ≠ (significant source.bytes).map Token.char := by
  intro source
  have reliable : source.Reliable := Input.reliable_ofBytes _
  have spelled : List.Forall₂ Instruction.IsSpelling [.number .push 0]
      [[.space, .space, .tab, .space, .lineFeed]] :=
    .cons (.number .push true [false]) .nil
  have decoded := @decode_of_words source _ _ reliable spelled rfl List.nodup_nil
  refine ⟨decoded, fun same => ?_⟩
  have canonical := (encode_eq_iff_canonical reliable decoded).mp same true [false]
    ⟨_, _, .push, spelled, rfl, List.mem_singleton_self _⟩
  exact absurd canonical (by decide)

end Whitespace
