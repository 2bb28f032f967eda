import Whitespace.Text.Unprintable

/-!
# Quoted text

Messages show text between double quotes.  The quote and the backslash are written behind a
backslash, four control characters by a letter or digit behind one, and any other character without
a visible form by its number.
-/

namespace Whitespace.Quoted

/-- A number in hexadecimal with lower-case digits. -/
def hexadecimal (n : Nat) : List Char :=
  Nat.toDigits 16 n

/-- A character as quoted text writes it. -/
def escape (c : Char) : List Char :=
  match c with
  | '\x00' => ['\\', '0']
  | '\t' => ['\\', 't']
  | '\r' => ['\\', 'r']
  | '\n' => ['\\', 'n']
  | '"' => ['\\', '"']
  | '\\' => ['\\', '\\']
  | c =>
    if Unprintable.contains c then
      ['\\', 'u', '\x7b'] ++ hexadecimal c.toNat ++ ['\x7d']
    else
      [c]

/-- A text between double quotes. -/
def quote (text : List Char) : String :=
  String.ofList ('"' :: text.flatMap escape ++ ['"'])

end Whitespace.Quoted
