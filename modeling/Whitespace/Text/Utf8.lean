/-!
# UTF-8, with malformed parts replaced

Input bytes are read as UTF-8.  Where they are not well formed, the replacement character U+FFFD
stands for the malformed part.  Two policies are needed.

* `scalar?` reads bytes that should spell exactly one character.
* `decode` reads a whole text.  A malformed part is the longest run of bytes that begins some
  character's spelling, or a single byte that begins none; each such part becomes one replacement
  character.
-/

namespace Whitespace.Utf8

/-- The character that stands for bytes that spell none. -/
def replacement : Char :=
  '\uFFFD'

/-- The character that the bytes begin with, if they begin with one. -/
def scalar? (bytes : List UInt8) : Option Char :=
  bytes.toByteArray.utf8DecodeChar? 0

/-- The bytes that spell a text. -/
def encode (text : List Char) : ByteArray :=
  (text.flatMap String.utf8EncodeChar).toByteArray

/-- The least and the greatest byte allowed at a place. -/
structure Bounds where
  least : UInt8 := 0x80
  greatest : UInt8 := 0xBF
  deriving DecidableEq, Repr

/-- Whether a byte lies within the bounds. -/
def Bounds.admits (bounds : Bounds) (b : UInt8) : Bool :=
  bounds.least ≤ b && b ≤ bounds.greatest

/-- The bounds of the bytes owed after a character's first byte; `none` for a byte that begins no
character.  The narrower bounds exclude overlong spellings, surrogates and numbers above
`0x10FFFF`. -/
def owed (first : UInt8) : Option (List Bounds) :=
  if first < 0x80 then some []
  else if first < 0xC2 then none
  else if first < 0xE0 then some [{}]
  else if first = 0xE0 then some [⟨0xA0, 0xBF⟩, {}]
  else if first = 0xED then some [⟨0x80, 0x9F⟩, {}]
  else if first < 0xF0 then some [{}, {}]
  else if first = 0xF0 then some [⟨0x90, 0xBF⟩, {}, {}]
  else if first < 0xF4 then some [{}, {}, {}]
  else if first = 0xF4 then some [⟨0x80, 0x8F⟩, {}, {}]
  else none

/-- Where decoding stands inside a character: the bytes read of it, last first, and the bounds of
those still owed.  Between characters both are empty. -/
structure Place where
  bytes : List UInt8 := []
  owed : List Bounds := []
  deriving DecidableEq, Repr

/-- A byte that begins a character, or stands alone: the characters finished and the new place. -/
def begin (b : UInt8) : List Char × Place :=
  match owed b with
  | none => ([replacement], {})
  | some [] => ([(scalar? [b]).getD replacement], {})
  | some (bounds :: more) => ([], ⟨[b], bounds :: more⟩)

/-- One byte more: the characters finished by it and the new place. -/
def Place.feed (place : Place) (b : UInt8) : List Char × Place :=
  match place.owed with
  | [] => begin b
  | bounds :: more =>
    if bounds.admits b then
      let bytes := b :: place.bytes
      if more.isEmpty then ([(scalar? bytes.reverse).getD replacement], {}) else ([], ⟨bytes, more⟩)
    else
      let (finished, next) := begin b
      (replacement :: finished, next)

/-- Adds to a text what the bytes behind a place spell. -/
def decodeFrom (place : Place) (text : Array Char) : List UInt8 → Array Char
  | [] => if place.owed.isEmpty then text else text.push replacement
  | b :: rest =>
    let (finished, next) := place.feed b
    decodeFrom next (text ++ finished) rest

/-- The text that bytes spell, each malformed part replaced by one U+FFFD. -/
def decode (bytes : List UInt8) : List Char :=
  (decodeFrom {} #[] bytes).toList

end Whitespace.Utf8
