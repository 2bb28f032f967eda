import Whitespace.Decoding.Decoder
import Whitespace.Instruction.Listing

/-!
# Decoding a whole source

`decode` turns a source into its instructions, or reports the first thing wrong with it.  The result
keeps the counts that are reported about a source that was decoded.
-/

namespace Whitespace

/-- A decoded source. -/
structure Decoding where
  instructions : List Instruction
  /-- How many labels are defined. -/
  labels : Nat
  /-- How many significant characters the source has. -/
  tokens : Nat
  deriving DecidableEq, Repr

/-- The instructions of a source. -/
def decode (source : Input) : Except DecodeError Decoding :=
  match (Decoder.ofInput source).drain #[] with
  | (.error e, _) => .error e
  | (.ok read, d) => .ok ⟨read.toList, d.defined.length, d.reader.position⟩

end Whitespace
