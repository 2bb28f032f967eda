/-!
# Text that is safe on a terminal

Lines that are written for a person may hold text from elsewhere, such as the name of a file.  The
control characters with which a text could steer a terminal are written by number: the escape, the
bell, the backspace, the form feed and the delete character with two hexadecimal digits, the
characters of the second control block in braces.
-/

namespace Whitespace.Terminal

/-- Whether a character of the first block steers a terminal. -/
def steers (c : Char) : Bool :=
  c == '\x07' || c == '\x08' || c == '\x0C' || c == '\x1B' || c == '\x7F'

/-- Whether a character belongs to the second control block. -/
def isSecondControl (c : Char) : Bool :=
  0x80 ≤ c.toNat && c.toNat ≤ 0x9F

/-- A character as it may be shown. -/
def escape (c : Char) : List Char :=
  if steers c then
    ['\\', 'x', Nat.digitChar (c.toNat / 16), Nat.digitChar (c.toNat % 16)]
  else if isSecondControl c then
    ['\\', 'u', '\x7b'] ++ Nat.toDigits 16 c.toNat ++ ['\x7d']
  else
    [c]

/-- A text as it may be shown. -/
def sanitize (text : String) : String :=
  String.ofList (text.toList.flatMap escape)

end Whitespace.Terminal
