import Whitespace.Proofs.Runs
import Whitespace.Proofs.Words

/-!
# Steps that calculate

A step of an arithmetic instruction takes two words, the right operand first, and leaves the word
that the calculation is to give (`calculation_of_step`).  It fails for one reason only: it divides
by zero.  Then both operands are gone.  An exact result that is no word wraps and is no failure.
-/

namespace Whitespace

namespace Machine

variable {config : Config} {program : Program} {m : Machine} {streams : Streams} {node : Node}
  {calculation : Calculation} {left right : Int64} {below : List Int64}

/-- The effect of a calculation on two operands. -/
theorem effect_calculate (calculates : node.instruction = .plain (.calculate calculation))
    (operands : m.stack.toList = below ++ [left, right]) (streams : Streams) :
    node.instruction.effect node.next node.branch (m.walker id streams).world =
      if calculation.divides = true ∧ right = 0 then
        (m.walker id streams).world.refuse below.reverse .divideByZero
      else
        (m.walker id streams).world.proceed
          (.ofInt (calculation.exact left.toInt right.toInt) :: below.reverse) := by
  have words : (m.walker id streams).world.stack = right :: left :: below.reverse := by
    rw [walker_stack, operands]
    simp
  rw [calculates]
  simp only [Instruction.effect, PlainOp.effect, words]

/-- **Steps that calculate.**  Let a step execute an arithmetic instruction with two operands on top
of other words.

* If it divides by zero, it fails for this cause, and both operands are gone.
* Otherwise it goes on, and in place of the operands it leaves a word, the only one that the
  calculation may give.
* It goes on also if the exact result is no word.
* The quotient of the operands and their remainder make up the left one.  For the least word and
  minus one they are the least word and zero. -/
theorem calculation_of_step (executes : m.Executes program node)
    (calculates : node.instruction = .plain (.calculate calculation))
    (operands : m.stack.toList = below ++ [left, right]) (config : Config) (streams : Streams) :
    let o := m.step config program streams
    (if calculation.divides = true ∧ right = 0 then
        o.result = .error ⟨.divideByZero, some ⟨node.instruction, node.index⟩⟩ ∧
          o.machine.stack.toList = below
      else
        o.result = onward node ∧
          ∃ x, o.machine.stack.toList = below ++ [x] ∧
            ∀ y, calculation.Yields left right y ↔ y = x) ∧
      (calculation.Overflows left right → o.result = onward node) ∧
      ∀ quotient remainder, Calculation.divide.Yields left right quotient →
        Calculation.modulo.Yields left right remainder →
          Congruent left (quotient.toInt * right.toInt + remainder.toInt) ∧
            (left = Int64.minValue → right = -1 → quotient = Int64.minValue ∧ remainder = 0) := by
  intro o
  have effect := effect_calculate calculates operands streams
  have goes_on (defined : ¬(calculation.divides = true ∧ right = 0)) :
      o.result = onward node ∧ o.machine.stack.toList =
        below ++ [.ofInt (calculation.exact left.toInt right.toInt)] := by
    rw [if_neg defined] at effect
    simpa using executes.step_proceed config effect
  refine ⟨?_, fun overflows => (goes_on overflows.defined).1, ?_⟩
  · split
    · next zero =>
      rw [if_pos zero] at effect
      simpa using executes.step_refuse config effect
    · next defined =>
      obtain ⟨result, words⟩ := goes_on defined
      exact ⟨result, _, words, fun y => Calculation.yields_iff defined⟩
  · intro quotient remainder divided rest
    refine ⟨Calculation.quotient_remainder divided rest, ?_⟩
    rintro rfl rfl
    exact Calculation.corner divided rest

/-- The least word divided by minus one: the exact quotient is no word, and the step leaves the
least word. -/
theorem calculation_of_step_least :
    let program : Program :=
      ⟨#[⟨0, .plain (.calculate .divide), some 1, none⟩, ⟨1, .plain .stop, none, none⟩]⟩
    let m : Machine := { stack := .ofList [7, Int64.minValue, -1] }
    Calculation.divide.Overflows Int64.minValue (-1) ∧
      (m.step {} program {}).result = .ok .running ∧
      (m.step {} program {}).machine.stack.toList = [7, Int64.minValue] := by
  intro program m
  have executes : m.Executes program ⟨0, .plain (.calculate .divide), some 1, none⟩ := ⟨rfl, rfl⟩
  have operands : m.stack.toList = [7] ++ [Int64.minValue, -1] := rfl
  have overflows : Calculation.divide.Overflows Int64.minValue (-1) := by
    intro x
    have quotient : Calculation.divide.exact Int64.minValue.toInt (-1 : Int64).toInt =
        0x8000000000000000 := rfl
    have greatest := Int64.toInt_lt x
    omega
  obtain ⟨leaves, wraps, -⟩ := calculation_of_step executes rfl operands {} {}
  rw [if_neg (by decide)] at leaves
  obtain ⟨-, x, words, only⟩ := leaves
  have least : x = Int64.minValue := ((only Int64.minValue).mp ⟨by decide, rfl⟩).symm
  refine ⟨overflows, wraps overflows, ?_⟩
  rw [words, least]
  rfl

end Machine

end Whitespace
