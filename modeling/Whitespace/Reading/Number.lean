import Whitespace.Reading
import Whitespace.Text.Utf8

/-!
# Reading a number

A number is the next token of the stream: the bytes up to white space, behind any white space.
After the token the rest of its line is read if it is blank, so that numbers on lines of their own
leave nothing behind; nothing is looked at past the end of that line.  The token must be a decimal
integer in the range of a 64-bit word.
-/

namespace Whitespace.Reading

/-- The bytes that separate tokens: space, tab, line feed, form feed and carriage return. -/
def isSpacing (b : UInt8) : Bool :=
  b == 0x20 || b == 0x09 || b == 0x0A || b == 0x0C || b == 0x0D

/-- The bytes that may stand between a token and the end of its line. -/
def isBlank (b : UInt8) : Bool :=
  b == 0x20 || b == 0x09 || b == 0x0D

/-- Reads one number. -/
def number : Reading Int64 := do
  let _ ← takeWhile isSpacing
  let token ← takeWhile fun b => !isSpacing b
  if token.isEmpty then
    throw .endOfInput
  let _ ← takeWhile isBlank
  if (← peek) == some 0x0A then
    advance
  let text := Utf8.decode token
  match Decimal.word? text with
  | some value => pure value
  | none => throw (.malformedNumber text)

end Whitespace.Reading
