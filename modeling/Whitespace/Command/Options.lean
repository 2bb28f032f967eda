/-!
# The options of the command

An option is a flag or a setting, which has a value.  Each has a letter and a word.  Letters may be
joined behind one dash, and the value of a setting may be joined to its letter, with or without an
equals sign; a word and its value are joined by an equals sign.  Otherwise the value is the next
argument, which must not begin with a dash unless it is a lone dash.

The help and version options end the reading of the arguments where they stand.  An argument that is
no option is refused where it stands.  What remains to be checked is checked behind the last
argument: no option is given twice, every setting has its value, and raw input excludes an input
file.
-/

namespace Whitespace.Command

/-- The options that are given or not. -/
inductive Flag where
  | raw
  | asm
  | debug
  | debugHeap
  | quiet
  deriving DecidableEq, Repr

/-- The options with a value. -/
inductive Setting where
  | file
  | input
  | output
  deriving DecidableEq, Repr

/-- An option. -/
inductive Key where
  | flag (f : Flag)
  | setting (s : Setting)
  | help
  | version
  deriving DecidableEq, Repr

/-- Every option with its letter and its word. -/
def keys : List (Key × Char × String) :=
  [(.setting .file, 'f', "file"), (.setting .input, 'i', "input"),
   (.setting .output, 'o', "output"), (.flag .raw, 'r', "raw"), (.flag .asm, 'a', "asm"),
   (.flag .debug, 'd', "debug"), (.flag .debugHeap, 'm', "debug-heap"),
   (.flag .quiet, 'q', "quiet"), (.help, 'h', "help"), (.version, 'V', "version")]

/-- The option with the given letter. -/
def Key.ofLetter? (c : Char) : Option Key :=
  (keys.find? fun (_, letter, _) => letter == c).map (·.1)

/-- The option with the given word. -/
def Key.ofWord? (text : List Char) : Option Key :=
  (keys.find? fun (_, _, word) => word.toList == text).map (·.1)

/-- What the command is asked to do. -/
structure Options where
  /-- The file with the program; standard input if there is none. -/
  file : Option String := none
  /-- The file with the input of the program. -/
  input : Option String := none
  /-- The file for the output of the program; standard output if there is none. -/
  output : Option String := none
  /-- Whether input is read byte by byte from a terminal. -/
  raw : Bool := false
  /-- Whether the program is listed and not run. -/
  asm : Bool := false
  debug : Bool := false
  debugHeap : Bool := false
  quiet : Bool := false
  deriving DecidableEq, Repr

/-- What some arguments ask for. -/
inductive Invocation where
  | run (options : Options)
  | help
  | version
  /-- The arguments are refused. -/
  | misuse
  deriving DecidableEq, Repr

/-- An option as it was given. -/
inductive Occurrence where
  | flag (f : Flag)
  /-- The value is missing if none followed. -/
  | setting (s : Setting) (value : Option String)
  deriving DecidableEq, Repr

/-- What reading an argument gives. -/
inductive Scan where
  /-- The options in the argument, of which the last may still lack its value. -/
  | options (found : List Occurrence)
  | stop (invocation : Invocation)
  deriving DecidableEq, Repr

namespace Scan

/-- Puts an option before the others of its argument. -/
def cons (o : Occurrence) : Scan → Scan
  | options found => options (o :: found)
  | stop invocation => stop invocation

/-- Reads joined letters. -/
def letters : List Char → Scan
  | [] => options []
  | c :: rest =>
    match Key.ofLetter? c with
    | none => stop .misuse
    | some .help => stop .help
    | some .version => stop .version
    | some (.flag f) => (letters rest).cons (.flag f)
    | some (.setting s) =>
      match rest with
      | [] => options [.setting s none]
      | '=' :: value => options [.setting s (some (String.ofList value))]
      | value => options [.setting s (some (String.ofList value))]

/-- Reads a word and the value joined to it, if there is one. -/
def word (text : List Char) : Scan :=
  let name := text.takeWhile (· ≠ '=')
  let joined : Option (List Char) :=
    match text.dropWhile (· ≠ '=') with
    | [] => none
    | _ :: value => some value
  match Key.ofWord? name, joined with
  | some (.setting s), value => options [.setting s (value.map String.ofList)]
  | some (.flag f), none => options [.flag f]
  | some .help, none => stop .help
  | some .version, none => stop .version
  | _, _ => stop .misuse

end Scan

/-- Reads arguments into options; `wanting` is the setting whose value may come next. -/
def scan (wanting : Option Setting) (found : Array Occurrence) :
    List String → Except Invocation (Array Occurrence)
  | [] =>
    .ok (match wanting with
      | none => found
      | some s => found.push (.setting s none))
  | argument :: rest =>
    let found' : Array Occurrence :=
      match wanting with
      | none => found
      | some s => found.push (.setting s none)
    let take (scanned : Scan) : Except Invocation (Option Setting × Array Occurrence) :=
      match scanned with
      | .stop invocation => .error invocation
      | .options new =>
        match new.getLast? with
        | some (.setting s none) => .ok (some s, found' ++ new.dropLast)
        | _ => .ok (none, found' ++ new)
    match argument.toList with
    | ['-', '-'] => if rest.isEmpty then .ok found' else .error .misuse
    | '-' :: '-' :: text =>
      match take (.word text) with
      | .error invocation => .error invocation
      | .ok (wanting, found) => scan wanting found rest
    | '-' :: c :: text =>
      match take (.letters (c :: text)) with
      | .error invocation => .error invocation
      | .ok (wanting, found) => scan wanting found rest
    | _ =>
      match wanting with
      | none => .error .misuse
      | some s => scan none (found.push (.setting s (some argument))) rest

/-- Whether a flag is among the options given. -/
def given (found : List Occurrence) (f : Flag) : Bool :=
  found.contains (.flag f)

/-- The values given for a setting. -/
def values (found : List Occurrence) (s : Setting) : List (Option String) :=
  found.filterMap fun
    | .setting s' value => if s' = s then some value else none
    | .flag _ => none

/-- Whether options may stand together. -/
def wellUsed (found : List Occurrence) : Bool :=
  let once (f : Flag) : Bool := found.count (.flag f) ≤ 1
  let valued (s : Setting) : Bool :=
    match values found s with
    | [] => true
    | [some _] => true
    | _ => false
  [Flag.raw, .asm, .debug, .debugHeap, .quiet].all once
    && [Setting.file, .input, .output].all valued
    && !(given found .raw && !(values found .input).isEmpty)

/-- The options given. -/
def Options.ofOccurrences (found : List Occurrence) : Options where
  file := (values found .file).head?.join
  input := (values found .input).head?.join
  output := (values found .output).head?.join
  raw := given found .raw
  asm := given found .asm
  debug := given found .debug
  debugHeap := given found .debugHeap
  quiet := given found .quiet

/-- What the arguments of the command ask for. -/
def Invocation.ofArguments (arguments : List String) : Invocation :=
  match scan none #[] arguments with
  | .error invocation => invocation
  | .ok found =>
    if wellUsed found.toList then .run (.ofOccurrences found.toList) else .misuse

end Whitespace.Command
