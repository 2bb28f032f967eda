/-!
# Significant characters

A program is written with three characters: space, tab and line feed.  Every other byte of a
source is comment.  A `Token` is one significant character; `significant` keeps the tokens of some
bytes in order and is what a source means to the rest of the library.

Texts that show tokens to a person write them in *visible form*: `s`, `t` and `n`.
-/

namespace Whitespace

/-- A significant character of a source. -/
inductive Token where
  | space
  | tab
  | lineFeed
  deriving DecidableEq, Repr

namespace Token

/-- The character a token stands for. -/
def char : Token → Char
  | space => ' '
  | tab => '\t'
  | lineFeed => '\n'

/-- The byte that spells a token. -/
def byte : Token → UInt8
  | space => 0x20
  | tab => 0x09
  | lineFeed => 0x0A

/-- The token a byte spells, if it is significant. -/
def ofByte? (b : UInt8) : Option Token :=
  if b = 0x20 then some space
  else if b = 0x09 then some tab
  else if b = 0x0A then some lineFeed
  else none

/-- The letter for a token in visible form. -/
def letter : Token → Char
  | space => 's'
  | tab => 't'
  | lineFeed => 'n'

/-- A token between quotes, the invisible ones by their escapes. -/
def quoted : Token → String
  | space => "' '"
  | tab => "'\\t'"
  | lineFeed => "'\\n'"

@[simp] theorem ofByte?_byte (t : Token) : ofByte? t.byte = some t := by
  cases t <;> decide

theorem ofByte?_eq_some_iff {b : UInt8} {t : Token} : ofByte? b = some t ↔ b = t.byte := by
  constructor
  · unfold ofByte?
    split
    · rintro ⟨⟩; assumption
    · split
      · rintro ⟨⟩; assumption
      · split
        · rintro ⟨⟩; assumption
        · simp
  · rintro rfl
    exact ofByte?_byte t

end Token

/-- The significant characters of some bytes, in order. -/
def significant (bytes : List UInt8) : List Token :=
  bytes.filterMap Token.ofByte?

@[simp] theorem significant_nil : significant [] = [] := rfl

theorem significant_cons {b : UInt8} {t : Token} (h : Token.ofByte? b = some t)
    (bytes : List UInt8) : significant (b :: bytes) = t :: significant bytes :=
  List.filterMap_cons_some h

@[simp] theorem significant_append (a b : List UInt8) :
    significant (a ++ b) = significant a ++ significant b := by
  simp [significant]

@[simp] theorem significant_map_byte (ts : List Token) :
    significant (ts.map Token.byte) = ts := by
  induction ts with
  | nil => rfl
  | cons t ts ih =>
    rw [List.map_cons, significant_cons (Token.ofByte?_byte t), ih]

/-- A byte in visible form: tokens by their letters, any other byte by the character it numbers. -/
def visibleByte (b : UInt8) : Char :=
  match Token.ofByte? b with
  | some t => t.letter
  | none => Char.ofUInt8 b

/-- Bytes in visible form. -/
def visibleBytes (bytes : List UInt8) : String :=
  String.ofList (bytes.map visibleByte)

/-- Tokens in visible form. -/
def visible (tokens : List Token) : String :=
  String.ofList (tokens.map Token.letter)

end Whitespace
