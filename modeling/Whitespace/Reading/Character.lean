import Whitespace.Reading
import Whitespace.Text.Utf8

/-!
# Reading a character

A character is read as UTF-8.  Its first byte tells how many bytes may follow, and as many
continuation bytes as come are read, up to that number; a byte that is no continuation is left for
the next character.  Bytes that spell no character are read as U+FFFD, so that only the end of the
stream and its failures are errors.
-/

namespace Whitespace.Reading

/-- How many continuation bytes a first byte announces. -/
def continuations (first : UInt8) : Nat :=
  if 0xC2 ≤ first ∧ first ≤ 0xDF then 1
  else if 0xE0 ≤ first ∧ first ≤ 0xEF then 2
  else if 0xF0 ≤ first ∧ first ≤ 0xF4 then 3
  else 0

/-- Whether a byte continues a character. -/
def isContinuation (b : UInt8) : Bool :=
  0x80 ≤ b && b ≤ 0xBF

/-- Reads the rest of a character of which `bytes` have been read and `owed` more are announced. -/
def characterFrom (bytes : List UInt8) : (owed : Nat) → Reading Char
  | 0 => pure ((Utf8.scalar? bytes).getD Utf8.replacement)
  | owed + 1 => do
    match ← peek with
    | none => pure Utf8.replacement
    | some b =>
      if isContinuation b then
        advance
        characterFrom (bytes ++ [b]) owed
      else
        pure Utf8.replacement

/-- Reads one character. -/
def character : Reading Char := do
  match ← peek with
  | none => throw .endOfInput
  | some first =>
    advance
    characterFrom [first] (continuations first)

end Whitespace.Reading
