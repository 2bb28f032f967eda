import Whitespace.Decoding
import Whitespace.Linking
import Whitespace.Machine

/-!
# From a source to its output

The stages put together: `load` decodes and links, `execute` runs a source on some input, and
`disassemble` lists a source without linking it.  What the stages report is returned with their
results.
-/

namespace Whitespace

/-- What can go wrong from reading a source to the end of its run. -/
inductive Error where
  | decode (e : DecodeError)
  | link (e : LinkError)
  | run (f : Fault)
  deriving DecidableEq, Repr

/-- The text for an error, with the stage it comes from. -/
def Error.message : Error → String
  | decode e => "decoding failed: " ++ e.message
  | link e => "linking failed: " ++ e.message
  | run f => "execution failed: " ++ f.message

/-- What is reported about a source that has been decoded. -/
def Decoding.events (d : Decoding) : List Event :=
  [.decoded d.instructions.length d.labels d.tokens]

/-- What is reported about a program that has been linked. -/
def Linking.events (l : Linking) : List Event :=
  [.resolved l.labels, .linked l.program.size l.instructions]

/-- A result and what was reported on the way to it. -/
structure Reported (α : Type) where
  result : α
  events : List Event

/-- Decodes and links a source. -/
def load (source : Input) : Reported (Except Error Program) :=
  match decode source with
  | .error e => ⟨.error (.decode e), []⟩
  | .ok decoding =>
    match link decoding.instructions with
    | .error e => ⟨.error (.link e), decoding.events⟩
    | .ok linking => ⟨.ok linking.program, decoding.events ++ linking.events⟩

/-- The listing of a source. -/
def disassemble (source : Input) : Reported (Except DecodeError String) :=
  match decode source with
  | .error e => ⟨.error e, []⟩
  | .ok decoding => ⟨.ok (listing decoding.instructions), decoding.events⟩

/-- What a source prints when it is run on some input; `none` if that takes more than `fuel`
steps. -/
def execute (fuel : Nat) (source input : List UInt8) :
    Option (Reported (Except Error ByteArray)) :=
  let loaded := load (.ofBytes source)
  match loaded.result with
  | .error e => some ⟨.error e, loaded.events⟩
  | .ok program =>
    (Machine.run fuel {} program ⟨some (.ofBytes input), some {}⟩).map fun run =>
      let events := loaded.events ++ run.events.toList
      match run.result with
      | .error f => ⟨.error (.run f), events⟩
      | .ok () => ⟨.ok ((run.streams.output.map Sink.written).getD .empty), events⟩

/-! ## Texts

The same for programs and input that are given as text, as they are in a browser. -/

/-- What a source prints, as text. -/
def executeText (fuel : Nat) (source input : String) :
    Option (Reported (Except Error String)) :=
  (execute fuel source.toUTF8.toList input.toUTF8.toList).map fun r =>
    { r with result := r.result.map fun bytes => String.ofList (Utf8.decode bytes.toList) }

/-- The listing of a source, or the error of decoding it. -/
def disassembleText (source : String) : Reported (Except Error String) :=
  let r := disassemble (.ofText source)
  { r with result := r.result.mapError Error.decode }

end Whitespace
