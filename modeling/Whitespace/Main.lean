import Whitespace.Command

/-!
# The program

The command over the real files and streams.  Everything it decides is decided by
`Whitespace.Command`; here the sources are gathered, the program is stepped, and what it prints and
reports is passed on as it comes.
-/

namespace Whitespace.Main

open Command

/-- What the system's number of a failure says about a path; numbers may come negated. -/
def pathError? (code : UInt32) : Option PathError :=
  match min code (0 - code) with
  | 2 => some .notFound
  | 13 => some .denied
  | 19 => some .noDevice
  | 20 => some .notDirectory
  | 21 => some .isDirectory
  | 36 => some .nameTooLong
  | _ => none

/-- The text for a failure of the system. -/
def failureText (e : IO.Error) : String :=
  let known : Option PathError :=
    match e with
    | .noFileOrDirectory .. => some .notFound
    | .permissionDenied .. => some .denied
    | .inappropriateType _ code _ | .invalidArgument _ code _ | .resourceExhausted _ code _
    | .noSuchThing _ code _ | .otherError code _ => pathError? code
    | _ => none
  (known.map PathError.message).getD (toString e)

/-- Tries something that may fail in the system. -/
def attempt {α : Type} (action : IO α) : IO (Except String α) := do
  try
    return .ok (← action)
  catch e =>
    return .error (failureText e)

/-- Reads a stream to its end. -/
partial def readAll (stream : IO.FS.Stream) (read : ByteArray) : IO ByteArray := do
  let bytes ← stream.read 65536
  if bytes.isEmpty then return read else readAll stream (read ++ bytes)

/-- Reads a stream through the end of a line. -/
partial def readLine (stream : IO.FS.Stream) (read : List UInt8) : IO (List UInt8) := do
  let bytes ← stream.read 1
  match bytes.toList with
  | [] => return read.reverse
  | b :: _ => if b = 0x0A then return (b :: read).reverse else readLine stream (b :: read)

/-- Passes notices on to standard error. -/
def report (o : Options) (notices : List Notice) : IO Unit := do
  let stderr ← IO.getStderr
  stderr.write (notices.flatMap (Notice.bytes o)).toByteArray
  stderr.flush

/-- Where the output goes: a file, or standard output. -/
abbrev Target := ByteArray → IO Unit

/-- Reads the next key of standard input. -/
partial def readKey (keyboard : Keyboard) : IO UInt8 := do
  match (← (← IO.getStdin).read 1).toList with
  | [] => return Keyboard.endKey
  | b :: _ =>
    match keyboard.feed b with
    | .key key => return key
    | .more keyboard => readKey keyboard

/-- Takes a step with some deliveries at hand; `live` tells whether more standard input may come. -/
partial def advance (job : Job) (s : Session) (count : Nat) (live : Bool) :
    IO (Session.Outcome × Bool) := do
  if !(live && s.machine.reads job.program) then
    match s.attempt job count with
    | .made outcome => return (outcome, live)
    | .postponed s => advance job s (2 * count + 1) live
  else match s.tryStep job 0 with
  | some outcome => return (outcome, true)
  | none =>
    if job.options.raw then
      advance job (s.supply [.data [← readKey .ready]]) 0 true
    else
      match ← readLine (← IO.getStdin) [] with
      | [] => return (s.step job, false)
      | bytes => advance job (s.supply [.data bytes]) 0 true

/-- Steps to the end of a run; the result is the exit code. -/
partial def finish (target : Target) (job : Job) (s : Session) (live : Bool) : IO UInt32 := do
  let shown := s.written.size
  let (outcome, live) ← advance job s 0 live
  let written := outcome.session.written
  if shown < written.size || outcome.exitCode.isSome then
    target (written.extract shown written.size)
  unless outcome.notices.isEmpty do
    report job.options outcome.notices
  match outcome.exitCode with
  | some code => return code
  | none => finish target job outcome.session live

/-- The special files that are not left to the system, and the directories on the way to them. -/
def system : System where
  leadsTo? path :=
    match path with
    | [] | ["dev"] | ["proc"] | ["proc", "self"] | ["proc", "self", "fd"] => some (.directory path)
    | ["dev", "fd"] => some (.directory ["proc", "self", "fd"])
    | ["dev", "null"] => some (.special .null)
    | ["dev", "zero"] => some (.special .zero)
    | ["dev", "random"] | ["dev", "urandom"] => some (.special .random)
    | ["dev", "full"] => some (.special .full)
    | ["dev", "tty"] => some (.special .terminal)
    | ["dev", "stdin"] | ["proc", "self", "fd", "0"] => some (.special .standardInput)
    | ["dev", "stdout"] | ["proc", "self", "fd", "1"] => some (.special .standardOutput)
    | ["dev", "stderr"] | ["proc", "self", "fd", "2"] => some (.special .standardError)
    | _ => none

/-- The special file that a path names. -/
def special? (path : String) : Option SpecialFile :=
  match ({ system } : Files).find path with
  | .ok (.special f) => some f
  | _ => none

/-- What a path leads to, with its size; nothing if it leads to no file, or to a pipe. -/
def stored? (path : String) : IO (Option (IO.FS.FileType × UInt64)) := do
  match ← attempt do (← IO.FS.realPath path).metadata with
  | .ok data => return some (data.type, data.byteSize)
  | .error _ => return none

/-- Reads the source in a file.  What has no size is empty; a directory cannot be mapped into
memory. -/
def readSource (path : String) : IO (Except String (List UInt8)) :=
  attempt do
    let handle ← IO.FS.Handle.mk path .read
    match ← stored? path with
    | some (.dir, size) =>
      if size = 0 then return [] else throw (IO.userError PathError.noDevice.message)
    | some (_, size) => if size = 0 then return [] else return (← handle.readBinToEnd).toList
    | none => return []

/-- Opens a file as an input stream.  A directory can be opened, too, but not be read. -/
def openInput (path : String) : IO (Except String (Option Input)) := do
  match ← stored? path with
  | some (.file, _) =>
    attempt do return some (.ofBytes (← IO.FS.readBinFile path).toList)
  | some (.dir, _) => return .ok (some ⟨[], [.failure PathError.isDirectory.message]⟩)
  | _ =>
    if (special? path).isSome then
      return ((({ system } : Files).input path).map some).mapError PathError.message
    else
      attempt do
        let _ ← IO.FS.Handle.mk path .read
        return some {}

/-- Opens the output.  What goes to standard error goes there with the notices, and a device that
keeps nothing is given nothing. -/
def openOutput (path : Option String) : IO (Except String Target) := do
  let stdout ← IO.getStdout
  let print : Target := fun bytes => do stdout.write bytes; stdout.flush
  match path with
  | none => return .ok print
  | some path =>
    let create : IO Target := do
      let handle ← IO.FS.Handle.mk path .write
      return fun bytes => do handle.write bytes; handle.flush
    match special? path with
    | none | some .standardInput => attempt create
    | some .standardOutput => return .ok print
    | some .terminal => return .error PathError.noAddress.message
    | some _ => return .ok fun _ => pure ()

/-- Whether two paths are given and mean the same file. -/
def sameFile (a b : Option String) : IO Bool := do
  match a, b with
  | some a, some b =>
    match ← attempt (IO.FS.realPath a), ← attempt (IO.FS.realPath b) with
    | .ok a, .ok b => return a == b
    | _, _ => return false
  | _, _ => return false

/-- Runs the command with options. -/
def run (o : Options) : IO UInt32 := do
  let target ← openOutput o.output
  match target with
  | .error message =>
    report o (Ending.failure message).notices
    return 1
  | .ok target =>
    let program : Except String (List UInt8) ←
      match o.file with
      | none => attempt do return (← readAll (← IO.getStdin) .empty).toList
      | some name => readSource name
    let fromStdin : Bool ←
      match o.input with
      | none => pure o.file.isSome
      | some name =>
        pure (special? name == some .standardInput && !((← stored? name) matches some (.file, _)))
    let live := o.raw || fromStdin
    let input : Except String (Option Input) ←
      if live then pure (.ok (some {}))
      else
        match o.input with
        | none => pure (.ok none)
        | some name => openInput name
    let joined := Files.wiring ((o.output.bind special?).map .special)
      ((o.input.bind special?).map .special)
    let wiring := { joined with loops := ← sameFile o.input o.output }
    match start o { output := .ok (), program, input, wiring } with
    | .ended ending =>
      target ending.output
      report o ending.notices
      return ending.exitCode
    | .running job session notices =>
      report o notices
      finish target job session live

end Whitespace.Main

def main (arguments : List String) : IO UInt32 := do
  match Whitespace.Command.Invocation.ofArguments arguments with
  | .run o => Whitespace.Main.run o
  | .help => IO.print Whitespace.Command.helpText; return 0
  | .version => IO.print Whitespace.Command.versionText; return 0
  | .misuse => IO.eprint Whitespace.Command.misuseText; return 2
