import Whitespace.Command.Files
import Whitespace.Command.Session
import Whitespace.Interpreter

/-!
# The command

The command loads a program and runs it, or lists it.  What it needs from outside is gathered first
(`Sources`), so that all its decisions are made here: `start` decides what happens before the first
step of the program, which is run as a `Session`.

`perform` is the whole command over files and standard input that are given as values.
-/

namespace Whitespace.Command

/-- What the command finds outside, each part as it is or the text of the failure to get it. -/
structure Sources where
  /-- The output file has been created. -/
  output : Except String Unit
  /-- The source of the program. -/
  program : Except String (List UInt8)
  /-- The input of the program; `none` if it has no input stream. -/
  input : Except String (Option Input)
  /-- What the terminal sends, in raw mode. -/
  terminal : List UInt8 := []
  wiring : Wiring

/-- The command fails. -/
def Ending.failure (message : String) : Ending :=
  ⟨1, .empty, [.event (.failed message)]⟩

/-- An ending behind some notices. -/
def Ending.behind (notices : List Notice) (ending : Ending) : Ending :=
  { ending with notices := notices ++ ending.notices }

/-- How the command begins: it ends at once, or a program is to be run. -/
inductive Beginning where
  | ended (ending : Ending)
  | running (job : Job) (session : Session) (notices : List Notice)

/-- Everything before the first step of the program. -/
def start (o : Options) (sources : Sources) : Beginning :=
  match sources.output with
  | .error message => .ended (.failure message)
  | .ok () =>
    match sources.program with
    | .error message => .ended (.failure message)
    | .ok source =>
      if o.asm then
        let listed := disassemble (.ofBytes source)
        let notices := listed.events.map Notice.event
        match listed.result with
        | .error e => .ended ((Ending.failure e.message).behind notices)
        | .ok text =>
          if sources.wiring.full && !text.isEmpty then
            .ended ((Ending.failure noSpace).behind notices)
          else if sources.wiring.onStandardError then
            .ended ⟨0, .empty, notices ++ [.printed text.toUTF8.toList]⟩
          else
            .ended ⟨0, text.toUTF8, notices⟩
      else
        let loaded := load (.ofBytes source)
        let notices := loaded.events.map Notice.event
        match loaded.result with
        | .error e => .ended ((Ending.failure e.message).behind notices)
        | .ok program =>
          let notices := notices ++ [.event (.loaded (o.file.getD "<stdin>") program.size)]
          match sources.input with
          | .error message => .ended ((Ending.failure message).behind notices)
          | .ok input =>
            let job : Job := ⟨o, program, sources.wiring⟩
            .running job (.start job input sources.terminal) notices

/-! ## Everything given as a value -/

namespace Files

/-- The source in a file, which is mapped into memory; what has no size is empty. -/
def source (files : Files) (path : String) : Except PathError (List UInt8) := do
  let place ← files.find path
  match files.read? place, place with
  | some contents, _ => return contents.toList
  | none, .special .terminal => throw .noAddress
  | none, .system path => if files.system.hasNoSize path then return [] else throw .noDevice
  | none, .directory _ | none, .above => throw .noDevice
  | none, _ => return []

/-- A file as an input stream.  A directory can be opened, too, but not be read. -/
def input (files : Files) (path : String) : Except PathError Input := do
  let place ← files.find path
  match files.read? place, place with
  | some contents, _ => return .ofBytes contents.toList
  | none, .special .terminal => throw .noAddress
  | none, .directory _ | none, .above | none, .system _ =>
    return ⟨[], [.failure PathError.isDirectory.message]⟩
  | none, _ => return {}

/-- Where the output goes: to a file that is created, or to a special file. -/
def output (files : Files) (path : String) : Except PathError Place := do
  match ← files.destination path with
  | .special .terminal => throw .noAddress
  | place => return place

/-- How an output and an input are joined. -/
def wiring (output input : Option Place) : Wiring where
  loops :=
    match output with
    | some (.file _) | some (.special .standardInput) => input == output
    | _ => false
  endless :=
    match input with
    | some (.special f) => f.isEndless
    | _ => false
  full := output == some (.special .full)
  onStandardError := output == some (.special .standardError)

end Files

/-- What the command finds among some files, where its output goes if that is given, and the files
with the output file created.  A program reads standard input unless it comes from there itself. -/
def Sources.gather (o : Options) (files : Files) : Sources × Option Place × Files :=
  let created : Except PathError (Option Place) := o.output.mapM files.output
  let target := created.toOption.join
  let files := (target.map (files.store · .empty)).getD files
  let stdin := files.standardInput.toList
  let program : Except PathError (List UInt8) :=
    match o.file with
    | none => .ok stdin
    | some path => files.source path
  let unread := if o.file.isSome then stdin else []
  let input : Except PathError (Option Input) :=
    if o.raw then .ok (some {})
    else
      match o.input with
      | some path => (files.input path).map some
      | none => .ok (if o.file.isSome then some (.ofBytes unread) else none)
  let origin : Option Place :=
    match o.input with
    | some path => (files.find path).toOption
    | none => if o.file.isSome then some (.special .standardInput) else none
  let sources : Sources :=
    { output := (created.map fun _ => ()).mapError PathError.message
      program := program.mapError PathError.message
      input := input.mapError PathError.message
      terminal := unread
      wiring := Files.wiring target origin }
  (sources, target, files)

/-- What the command leaves behind. -/
structure Report where
  exitCode : UInt32
  stdout : ByteArray
  stderr : List UInt8
  files : Files

/-- Runs the command with options. -/
def Options.perform (fuel : Nat) (o : Options) (files : Files) : Option Report :=
  let (sources, target, files) := Sources.gather o files
  let ending : Option Ending :=
    match start o sources with
    | .ended ending => some ending
    | .running job session notices => session.finish job notices.toArray 0 fuel
  ending.map fun ending =>
    let stderr := ending.notices.flatMap (Notice.bytes o)
    match target with
    | none | some (.special .standardOutput) => ⟨ending.exitCode, ending.output, stderr, files⟩
    | some place => ⟨ending.exitCode, .empty, stderr, files.store place ending.output⟩

/-- The name and version of the command. -/
def versionText : String :=
  "wspace 0.1.0\n"

/-- What the help option prints. -/
def helpText : String :=
  "wspace 0.1.0\na whitespace interpreter\n\n" ++
  "USAGE:\n    wspace [OPTIONS]\n\n" ++
  "OPTIONS:\n" ++
  "    -a, --asm                prints the instruction listing instead of running the program\n" ++
  "    -d, --debug              traces every executed instruction\n" ++
  "    -f, --file <file>        whitespace source file to interpret, " ++
  "read from stdin if omitted\n" ++
  "    -h, --help               Print help information\n" ++
  "    -i, --input <input>      file the program reads its input from, defaults to stdin\n" ++
  "    -m, --debug-heap         traces a heap dump before every executed instruction\n" ++
  "    -o, --output <output>    file the program writes its output to, defaults to stdout\n" ++
  "    -q, --quiet              suppresses all output other than what " ++
  "the whitespace program is\n" ++
  "                             producing\n" ++
  "    -r, --raw                reads input from the terminal one key at a time\n" ++
  "    -V, --version            Print version information\n"

/-- What the command tells about arguments that it refuses. -/
def misuseText : String :=
  "error: the arguments are not understood\n\nFor more information try --help\n"

/-- Does what the command is asked for. -/
def Invocation.perform (fuel : Nat) (i : Invocation) (files : Files) : Option Report :=
  match i with
  | run o => o.perform fuel files
  | help => some ⟨0, helpText.toUTF8, [], files⟩
  | version => some ⟨0, versionText.toUTF8, [], files⟩
  | misuse => some ⟨2, .empty, misuseText.toUTF8.toList, files⟩

/-- Runs the command; `none` if the program takes more than `fuel` steps. -/
def perform (fuel : Nat) (arguments : List String) (files : Files) : Option Report :=
  (Invocation.ofArguments arguments).perform fuel files

end Whitespace.Command
