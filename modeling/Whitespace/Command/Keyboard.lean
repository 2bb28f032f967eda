/-!
# The keys of a terminal

In raw mode a program reads keys.  A key is one byte; the carriage return of the enter key is read
as a line feed.  Function keys send escape sequences, which are not keys and are skipped:

* an escape and a left bracket or a digit, with everything through the next letter;
* an escape and one of `#`, `(` and `)`, with the byte behind it;
* an escape and any other byte.

The byte behind a sequence is a key whatever it is, an escape too.  When nothing more can come,
every further key is the null byte.
-/

namespace Whitespace.Command

/-- What a keyboard expects next. -/
inductive Keyboard where
  /-- A key, or the escape that begins a sequence. -/
  | ready
  /-- The byte behind an escape. -/
  | escaped
  /-- More of a sequence that ends with a letter. -/
  | sequence
  /-- The last byte of a sequence. -/
  | last
  /-- The key behind a sequence. -/
  | skipped
  deriving DecidableEq, Repr

namespace Keyboard

/-- What a byte gives: a key, or another expectation. -/
inductive Stroke where
  | key (b : UInt8)
  | more (k : Keyboard)
  deriving DecidableEq, Repr

/-- Whether a byte is a letter. -/
def isLetter (b : UInt8) : Bool :=
  (0x41 ≤ b && b ≤ 0x5A) || (0x61 ≤ b && b ≤ 0x7A)

/-- Whether a byte behind an escape begins a sequence that ends with a letter: a left bracket or a
digit. -/
def isOpening (b : UInt8) : Bool :=
  b == 0x5B || (0x30 ≤ b && b ≤ 0x39)

/-- Whether a byte behind an escape is followed by one more: `#`, `(` or `)`. -/
def isSelector (b : UInt8) : Bool :=
  b == 0x23 || b == 0x28 || b == 0x29

/-- The key a byte stands for. -/
def keyOf (b : UInt8) : UInt8 :=
  if b = 0x0D then 0x0A else b

/-- The key that is read when nothing more can come. -/
def endKey : UInt8 :=
  0x00

/-- Takes one byte. -/
def feed : Keyboard → UInt8 → Stroke
  | ready, b => if b = 0x1B then .more escaped else .key (keyOf b)
  | escaped, b =>
    if isOpening b then .more sequence else if isSelector b then .more last else .more skipped
  | sequence, b => if isLetter b then .more skipped else .more sequence
  | last, _ => .more skipped
  | skipped, b => .key (keyOf b)

/-- The next key that some bytes give, and the bytes behind it.  A sequence that they leave
unfinished gives none. -/
def next (k : Keyboard) : List UInt8 → UInt8 × List UInt8
  | [] => (endKey, [])
  | b :: rest =>
    match k.feed b with
    | .key key => (key, rest)
    | .more k => next k rest

/-- Reads some more keys of a terminal behind those that have been read, the last of which comes
first. -/
def readOnto (read : List UInt8) : (count : Nat) → List UInt8 → List UInt8 × List UInt8
  | 0, bytes => (read.reverse, bytes)
  | count + 1, bytes =>
    let (key, rest) := ready.next bytes
    readOnto (key :: read) count rest

/-- The first keys that the bytes of a terminal give, and the bytes behind them. -/
def read (count : Nat) (bytes : List UInt8) : List UInt8 × List UInt8 :=
  readOnto [] count bytes

end Keyboard

end Whitespace.Command
