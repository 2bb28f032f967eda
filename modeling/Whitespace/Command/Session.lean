import Whitespace.Command.Keyboard
import Whitespace.Command.Notice
import Whitespace.Machine

/-!
# Running a program for the command

A `Job` is a program with the options for its run, and a `Session` is how far the run has come.
`Session.step` takes it one step further and tells what goes to standard error.

Input may come while the program runs: from a terminal, from a device that never ends, or out of the
file that the program writes.  Then a step is taken with what has come, and taken again with more if
that was not enough (`Session.attempt`).

The output of the command is buffered.  That shows only where the output is a special file: one that
is full refuses what leaves the buffer, and standard error receives it between the notices.
-/

namespace Whitespace.Command

/-- How the streams of the command are joined to each other and to special files. -/
structure Wiring where
  /-- The program reads the file that it writes. -/
  loops : Bool := false
  /-- Null bytes follow the end of the input, without end. -/
  endless : Bool := false
  /-- There is no room for the output. -/
  full : Bool := false
  /-- The output goes to standard error. -/
  onStandardError : Bool := false
  deriving DecidableEq, Repr

/-- How many bytes of output are held back until they are flushed. -/
def bufferCapacity : Nat :=
  8192

/-- The text for a device that has no room. -/
def noSpace : String :=
  "No space left on device (os error 28)"

/-- What the output of the command is written to. -/
def Wiring.device (wiring : Wiring) : Device :=
  if wiring.full then .undeliverable bufferCapacity noSpace else .collecting

/-- A program to be run, and how. -/
structure Job where
  options : Options
  program : Program
  wiring : Wiring

/-- The events that are asked of the machine: those that the options name, if they are shown. -/
def Job.config (job : Job) : Config :=
  let shown := job.options.shows .trace
  ⟨job.options.debug && shown, job.options.debugHeap && shown⟩

/-- How far the run of a program has come. -/
structure Session where
  machine : Machine
  streams : Streams
  /-- What the terminal has sent and has not been read. -/
  terminal : List UInt8 := []
  /-- How many bytes of its output the program has been given as input. -/
  returned : Nat := 0
  /-- How many bytes of output have reached standard error, if it goes there. -/
  delivered : Nat := 0

/-- How the command ends. -/
structure Ending where
  exitCode : UInt32
  /-- What the command has written to its output, behind what was written before. -/
  output : ByteArray
  notices : List Notice

namespace Session

/-- The session before the first step. -/
def start (job : Job) (input : Option Input) (terminal : List UInt8) : Session where
  machine := .start job.program
  streams := ⟨input, some { device := job.wiring.device }⟩
  terminal

/-- The bytes that were fetched from the input between two points of a run. -/
def fetched (before after : Option Input) : List UInt8 :=
  match before, after with
  | some before, some after =>
    (before.pending.take (before.pending.length - after.pending.length)).flatMap Delivery.bytes
  | _, _ => []

/-- The bytes that the program has printed. -/
def written (s : Session) : ByteArray :=
  (s.streams.output.map Sink.written).getD .empty

/-- How many flushes the program has requested. -/
def flushes (s : Session) : Nat :=
  (s.streams.output.map (·.transcript.flushes)).getD 0

/-- How many bytes have left the buffer, `delivered` of them before the bytes behind the first
`size` were printed.  A flush empties the buffer, and so does a piece of output that has no room
behind what it holds; the sign of a number is a piece of its own. -/
def deliveredAfter (written : ByteArray) (delivered size : Nat) (flushed : Bool) : Nat :=
  let piece := (written.extract size written.size).toList
  let held :=
    match piece with
    | 0x2D :: _ :: _ => if size + 1 - delivered ≤ bufferCapacity then size + 1 else size
    | _ => size
  if flushed then written.size
  else if bufferCapacity < written.size - delivered then held
  else delivered

/-- The output that leaves the buffer between two counts, if it goes to standard error. -/
def printed (s : Session) (job : Job) (first last : Nat) : List Notice :=
  if job.wiring.onStandardError && first < last then
    [.printed (s.written.extract first last).toList]
  else []

/-- The failure of flushing the output at the end of a run. -/
def closingFailure (s : Session) : Option String :=
  s.streams.output.bind fun sink => sink.flush.1

/-- What a step gives. -/
structure Outcome where
  session : Session
  notices : List Notice
  /-- The exit code, if the run has ended. -/
  exitCode : Option UInt32

/-- The end of a run, with the last notices of the machine.  The output is flushed; a failure of
that comes before any fault of the program. -/
def close (s : Session) (job : Job) (notices : List Notice) (fault : Option Fault) : Outcome :=
  let notices := notices ++ s.printed job s.delivered s.written.size
  match s.closingFailure, fault with
  | some message, _ => ⟨s, notices ++ [.event (.failed message)], some 1⟩
  | none, some f => ⟨s, notices ++ [.event (.failed f.message)], some 1⟩
  | none, none => ⟨s, notices ++ [.event (.finished s.machine.steps)], some 0⟩

/-- One step of a program that has printed `size` bytes and requested `flushes` flushes, and the end
of the command if the program ends. -/
def stepFrom (job : Job) (size flushes : Nat) (s : Session) : Outcome :=
  let ⟨machine, streams, terminal, returned, delivered⟩ := s
  let input := streams.input
  let o := machine.step job.config job.program streams
  let s : Session := ⟨o.machine, o.streams, terminal, returned, delivered⟩
  let s :=
    if job.wiring.onStandardError then
      { s with delivered := deliveredAfter s.written delivered size (flushes < s.flushes) }
    else s
  let echo := if job.options.raw then fetched input s.streams.input else []
  let notices := o.before.map .event ++ s.printed job delivered s.delivered ++ echo.map .echo
    ++ o.after.map .event
  match o.result with
  | .ok .running => ⟨s, notices, none⟩
  | .ok _ => s.close job (notices ++ [.event (.halted s.machine.steps)]) none
  | .error f => s.close job notices (some f)

/-- One step of the program, and the end of the command if the program ends. -/
def step (s : Session) (job : Job) : Outcome :=
  stepFrom job s.written.size s.flushes s

/-- A session with more deliveries at the end of its input. -/
def supply (s : Session) (deliveries : List Delivery) : Session :=
  match s.streams.input with
  | none => s
  | some input =>
    { s with streams.input := some { input with pending := input.pending ++ deliveries } }

/-! ### Input that comes while the program runs

A step that is tried with a failure behind the bytes that have come meets it exactly if it needs
more of them. -/

/-- The failure that stands for bytes that have not come. -/
def awaited : Delivery :=
  .failure "awaiting input"

/-- The next deliveries of a source that has no end: the keys of a terminal, or null bytes. -/
def upcoming (s : Session) (job : Job) (count : Nat) : List Delivery :=
  if job.options.raw then (Keyboard.read count s.terminal).1.map fun key => .data [key]
  else if job.wiring.endless then [.data (List.replicate count 0)]
  else []

/-- A step with some more deliveries at hand; `none` if it needs still more.  Those that it does not
fetch have not come yet. -/
def tryStep (s : Session) (job : Job) (count : Nat) : Option Outcome :=
  let deliveries := s.upcoming job count
  let outcome := (s.supply (deliveries ++ [awaited])).step job
  match outcome.session.streams.input with
  | none => some outcome
  | some input =>
    if input.pending.isEmpty then none
    else
      let pending := input.pending.dropLast
      let unfetched := min pending.length deliveries.length
      let input := { input with pending := pending.take (pending.length - unfetched) }
      let terminal := (Keyboard.read (deliveries.length - unfetched) s.terminal).2
      some { outcome with
        session := { outcome.session with streams.input := some input, terminal } }

/-- Whether the next step reads input of which more may come. -/
def awaits (s : Session) (job : Job) : Bool :=
  s.machine.reads job.program &&
    (job.options.raw || job.wiring.endless || (job.wiring.loops && s.returned < s.written.size))

/-- A program that reads the file it writes finds there what it has printed by then. -/
def refill (s : Session) (job : Job) : Session :=
  if job.wiring.loops then
    let bytes := (s.written.extract s.returned s.written.size).toList
    let s := { s with returned := s.written.size }
    if job.options.raw then { s with terminal := s.terminal ++ bytes } else s.supply [.data bytes]
  else s

/-- What an attempt at a step leads to. -/
inductive Attempt where
  | made (outcome : Outcome)
  /-- The step needs more input. -/
  | postponed (s : Session)

/-- Attempts a step with some deliveries at hand that come while the program runs. -/
def attempt (s : Session) (job : Job) (count : Nat) : Attempt :=
  if s.awaits job then
    match s.tryStep job count with
    | some outcome => .made outcome
    | none => .postponed (s.refill job)
  else .made (s.step job)

/-- Steps until the run ends, if no more than `fuel` attempts are needed for that.  An attempt at a
step that was postponed has about twice as many deliveries at hand as the one before. -/
def finish (job : Job) (notices : Array Notice) (count : Nat) :
    (fuel : Nat) → Session → Option Ending
  | 0, _ => none
  | fuel + 1, s =>
    match s.attempt job count with
    | .postponed s => finish job notices (2 * count + 1) fuel s
    | .made outcome =>
      let notices := notices ++ outcome.notices
      match outcome.exitCode with
      | none => finish job notices 0 fuel outcome.session
      | some code => some ⟨code, outcome.session.written, notices.toList⟩

end Session

end Whitespace.Command
