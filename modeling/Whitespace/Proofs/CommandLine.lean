import Whitespace.Proofs.LinkingErrors
import Whitespace.Proofs.OutputText
import Whitespace.Proofs.Rerun
import Whitespace.Proofs.StoredFiles

/-!
# The command and the stages

The command finds its source and its input in files or on standard input and writes what the program
prints to a file.  With stored files, each another, it does what the stages do that it puts together
(`command_agrees`): with a listing it is `disassemble`, else `load` and a run of the machine, and so
it succeeds with an output exactly if `execute` gives that output.

How arguments are read into options makes no difference to this, and neither does what there is in
the system but for the files.  So the reading of arguments is a parameter here, as the system is,
and `Invocation.ofArguments` is one that it can be.

Two things make this true.  The output file is created before the others are opened, which leaves
them as they are (`Files.Holds.write`).  And input that is all there is never waited for, so that a
session takes one step of the machine after another (`Session.finish_eq_resume`).

## Main definitions

* `Files.Holds files target name bytes` — a name leads to a stored file other than the target.
* `Supplied asks arguments files o source input target` — what the command is asked to do with
  files.
* `leaves asks fuel arguments files target` — the exit code, and what the target holds in the end.
-/

namespace Whitespace

/-- What a run has written. -/
def Machine.Run.written (r : Machine.Run) : ByteArray :=
  (r.streams.output.map Sink.written).getD .empty

namespace Command

/-! ## Sources -/

/-- A name leads to a stored file, which is not the target and holds the given bytes. -/
def Files.Holds (files : Files) (target : List String) (name : String) (bytes : List UInt8) :
    Prop :=
  ∃ path contents, files.find name = .ok (.file path) ∧ path ≠ target ∧
    files.contents? path = some contents ∧ contents.toList = bytes

/-- Some arguments ask, as they are read, to read a source and to write a stored file.  The source
and the input, if that is asked for, are stored in other files.  A source that is not in a file is
on standard input, and then there is no input but from a file. -/
structure Supplied (asks : List String → Invocation) (arguments : List String) (files : Files)
    (o : Options) (source : List UInt8) (input : Option (List UInt8)) (target : List String) :
    Prop where
  asked : asks arguments = .run o
  cooked : o.raw = false
  output : ∃ name, o.output = some name ∧ files.destination name = .ok (.file target)
  source : match o.file with
    | some name => files.Holds target name source
    | none => files.standardInput.toList = source
  input : match o.input, o.file with
    | some name, _ => ∃ bytes, input = some bytes ∧ files.Holds target name bytes
    | none, some _ => input = some files.standardInput.toList
    | none, none => input = none

/-- How the exit code tells the state in which a program has ended. -/
def exitCode : State → UInt32
  | .halted => 0
  | _ => 1

/-- How the exit code tells the result of a run. -/
def resultCode {α : Type} : Except Fault α → UInt32
  | .ok _ => 0
  | .error _ => 1

/-- What the command leaves if it does what its arguments ask for, as they are read: its exit code
and what a file holds in the end.  With `Invocation.ofArguments` this is what `perform` leaves. -/
def leaves (asks : List String → Invocation) (fuel : Nat) (arguments : List String) (files : Files)
    (target : List String) : Option (UInt32 × Option ByteArray) :=
  ((asks arguments).perform fuel files).map fun r => (r.exitCode, r.files.contents? target)

namespace Files

variable {files : Files} {target : List String} {name : String} {bytes : List UInt8}

/-- **Creating the output file leaves the other files.** -/
theorem Holds.write (holds : files.Holds target name bytes) (writable : files.Writable target)
    (contents : ByteArray) : (files.write target contents).Holds target name bytes := by
  obtain ⟨path, old, leads, other, stored, same⟩ := holds
  refine ⟨path, old, find_write writable contents other leads, other, ?_, same⟩
  rw [contents?_write writable.named, if_neg other]
  exact stored

theorem Holds.source_eq (holds : files.Holds target name bytes) :
    files.source name = .ok bytes := by
  obtain ⟨path, contents, leads, -, stored, rfl⟩ := holds
  simp only [source, leads, read?, stored, bind, Except.bind]
  rfl

theorem Holds.input_eq (holds : files.Holds target name bytes) :
    files.input name = .ok (.ofBytes bytes) := by
  obtain ⟨path, contents, leads, -, stored, rfl⟩ := holds
  simp only [input, leads, read?, stored, bind, Except.bind]
  rfl

theorem standardInput_write (files : Files) (path : List String) (contents : ByteArray) :
    (files.write path contents).standardInput = files.standardInput := by
  rw [Files.write]
  split <;> rfl

/-- An output that is stored is not wired to another file. -/
theorem wiring_file {input : Option Place} (other : input ≠ some (.file target))
    (finite : ∀ f, input = some (.special f) → f.isEndless = false) :
    wiring (some (.file target)) input = {} := by
  have loops : (input == some (.file target)) = false := beq_false_of_ne other
  simp only [wiring, loops]
  split
  · rw [finite _ rfl]
    rfl
  · rfl

end Files

variable {asks : List String → Invocation} {arguments : List String} {files : Files} {o : Options}
  {source : List UInt8} {input : Option (List UInt8)} {target : List String}

/-- What the command finds when it is supplied. -/
def suppliedSources (source : List UInt8) (input : Option (List UInt8)) (terminal : List UInt8) :
    Sources where
  output := .ok ()
  program := .ok source
  input := .ok (input.map .ofBytes)
  terminal
  wiring := {}

/-- **What is supplied is found**, in whichever way it comes. -/
theorem Supplied.gather (supplied : Supplied asks arguments files o source input target) :
    ∃ terminal, Sources.gather o files =
      (suppliedSources source input terminal, some (.file target), files.write target .empty) := by
  obtain ⟨-, cooked, ⟨name, output, leads⟩, source_at, input_at⟩ := supplied
  have writable := Files.writable_of_destination leads
  have created : o.output.mapM files.output = .ok (some (.file target)) := by
    rw [output, Option.mapM_some]
    simp only [Files.output, leads]
    rfl
  have stored : files.store (.file target) .empty = files.write target .empty := rfl
  have stdin := Files.standardInput_write files target .empty
  refine ⟨if o.file.isSome then files.standardInput.toList else [], ?_⟩
  simp only [Sources.gather, created, cooked, Except.toOption, Option.join_some, Option.map_some,
    Option.getD_some, stored, stdin]
  cases input_name : o.input with
  | some name =>
    -- The input comes from a file, wherever the source comes from.
    simp only [input_name] at input_at
    obtain ⟨bytes, rfl, holds⟩ := input_at
    have later := holds.write writable .empty
    obtain ⟨path, -, found, other, -⟩ := later
    have unwired : Files.wiring (some (.file target)) (some (.file path)) = {} :=
      Files.wiring_file (by simpa using other) (by simp)
    simp only [found, unwired, (holds.write writable .empty).input_eq]
    cases file : o.file with
    | none =>
      simp only [file] at source_at
      rw [source_at]
      rfl
    | some name =>
      simp only [file] at source_at
      simp only [(source_at.write writable .empty).source_eq]
      rfl
  | none =>
    simp only [input_name] at input_at
    cases file : o.file with
    | none =>
      simp only [file] at source_at input_at
      rw [source_at, input_at]
      rfl
    | some name =>
      simp only [file] at source_at input_at
      have unwired : Files.wiring (some (.file target)) (some (.special .standardInput)) = {} :=
        Files.wiring_file (by simp) (by simp [SpecialFile.isEndless])
      simp only [Option.isSome_some, if_true, unwired, input_at,
        (source_at.write writable .empty).source_eq]
      rfl

/-! ## Sessions -/

namespace Session

variable {job : Job} {s : Session} {written : ByteArray}

/-- What has been written is flushed without failing at the end of a run. -/
theorem closingFailure_of_collects (collects : s.streams.Collects written) :
    s.closingFailure = none := by
  obtain ⟨⟨device, transcript⟩, output, rfl, -⟩ := collects
  rw [closingFailure, output]
  rfl

/-- The end of a run, if what has been written is flushed. -/
theorem close_eq (flushed : s.closingFailure = none) (job : Job) (notices : List Notice)
    (fault : Option Fault) :
    (s.close job notices fault).session = s ∧
      (s.close job notices fault).exitCode = some (if fault.isSome then 1 else 0) := by
  unfold close
  rw [flushed]
  cases fault <;> exact ⟨rfl, rfl⟩

/-- A step of a session whose files are wired to nothing is a step of the machine. -/
theorem step_eq (unwired : job.wiring = {}) (collects : s.streams.Collects written) :
    let o := s.machine.step job.config job.program s.streams
    (s.step job).session = { s with machine := o.machine, streams := o.streams } ∧
      (s.step job).exitCode =
        match o.result with
        | .ok .running => none
        | .ok _ => some 0
        | .error _ => some 1 := by
  intro o
  have flushed : closingFailure { s with machine := o.machine, streams := o.streams } = none :=
    closingFailure_of_collects (Machine.step_collects job.config job.program s.machine collects)
  simp only [step, stepFrom, unwired, Bool.false_eq_true, if_false]
  cases result : (s.machine.step job.config job.program s.streams).result with
  | error f =>
    simp only [o]
    exact close_eq flushed _ _ _
  | ok state =>
    simp only [o]
    cases state with
    | running => exact ⟨rfl, rfl⟩
    | halted | faulted => exact close_eq flushed _ _ _

/-- **A session takes one step of the machine after another** if all its input is there. -/
theorem finish_eq_resume (cooked : job.options.raw = false) (unwired : job.wiring = {})
    (collects : s.streams.Collects written) (notices : Array Notice) (count fuel : Nat)
    (events : Array Event) :
    (finish job notices count fuel s).map (fun e => (e.exitCode, e.output)) =
      (Machine.resume job.config job.program fuel s.machine s.streams events).map fun r =>
        (resultCode r.result, r.written) := by
  -- That the output keeps everything is what every step preserves, so that the end never fails.
  induction fuel generalizing s written notices count events with
  | zero => rfl
  | succ fuel ih =>
    have at_hand : s.attempt job count = .made (s.step job) := by
      have never : s.awaits job = false := by simp [awaits, cooked, unwired]
      rw [attempt, never]
      rfl
    have collects' := Machine.step_collects job.config job.program s.machine collects
    obtain ⟨session, code⟩ := step_eq unwired collects
    rw [finish, at_hand, Machine.resume]
    simp only [session, code]
    cases result : (s.machine.step job.config job.program s.streams).result with
    | error f => rfl
    | ok state =>
      cases state with
      | running => exact ih collects' _ _ _
      | halted => rfl
      | faulted => rfl

end Session

/-- The exit code tells the state of the machine, whatever is reported of the run. -/
theorem resume_exitCode (config : Config) (program : Program) (fuel : Nat) (streams : Streams) :
    (Machine.resume config program fuel (.start program) streams #[]).map (fun r =>
        (resultCode r.result, r.written)) =
      (Machine.run fuel {} program streams).map fun r => (exitCode r.machine.state, r.written) := by
  have unwatched := Machine.resume_config config program fuel (.start program) streams #[] #[]
  have told := congrArg (Option.map fun ending : Except Fault Unit × Machine × Streams =>
    (resultCode ending.1, (ending.2.2.output.map Sink.written).getD .empty)) unwatched
  rw [Option.map_map, Option.map_map] at told
  refine Eq.trans told ?_
  rw [Machine.run]
  cases ended : Machine.resume {} program fuel (.start program) streams #[] with
  | none => rfl
  | some r =>
    obtain ⟨halts, faults⟩ := Machine.state_of_resume rfl ended
    have code : resultCode r.result = exitCode r.machine.state := by
      cases result : r.result with
      | ok _ =>
        rw [halts.mp result]
        rfl
      | error f =>
        rw [faults.mp ⟨f, result⟩]
        rfl
    rw [Option.map_some, Option.map_some, ← code]
    rfl

/-! ## The command -/

/-- How the command ends, if it does within so many steps. -/
def Beginning.ending? (fuel : Nat) : Beginning → Option Ending
  | .ended ending => some ending
  | .running job session notices => session.finish job notices.toArray 0 fuel

/-- What is left in the output file is the output of the command. -/
theorem Supplied.leaves_eq (supplied : Supplied asks arguments files o source input target)
    (fuel : Nat) :
    ∃ terminal, leaves asks fuel arguments files target =
      ((start o (suppliedSources source input terminal)).ending? fuel).map fun e =>
        (e.exitCode, some e.output) := by
  obtain ⟨terminal, gathered⟩ := supplied.gather
  refine ⟨terminal, ?_⟩
  obtain ⟨name, -, leads⟩ := supplied.output
  have named := (Files.writable_of_destination leads).named
  rw [leaves, supplied.asked]
  simp only [Invocation.perform, Options.perform, gathered, Option.map_map]
  have kept : ∀ e : Ending, ((files.write target .empty).store (.file target) e.output).contents?
      target = some e.output := by
    intro e
    exact (Files.contents?_write named e.output target).trans (if_pos rfl)
  cases start o (suppliedSources source input terminal) with
  | ended e => simp [Beginning.ending?, kept]
  | running job session notices =>
    simp only [Beginning.ending?]
    congr 1
    funext e
    simp [kept]

/-- **The listing**: the command leaves what disassembling gives, or fails and leaves nothing. -/
theorem Supplied.leaves_listing (supplied : Supplied asks arguments files o source input target)
    (listing : o.asm = true) (fuel : Nat) :
    leaves asks fuel arguments files target =
      some (match (disassemble (.ofBytes source)).result with
        | .ok text => (0, some text.toUTF8)
        | .error _ => (1, some .empty)) := by
  obtain ⟨terminal, left⟩ := supplied.leaves_eq fuel
  rw [left, start, suppliedSources]
  simp only [listing, if_true]
  cases (disassemble (.ofBytes source)).result with
  | ok text => rfl
  | error e => rfl

/-- **A run**: the command leaves what the machine has written, also if it has faulted, and its exit
code tells whether it has halted.  If the source cannot be loaded, it fails and leaves nothing. -/
theorem Supplied.leaves_run (supplied : Supplied asks arguments files o source input target)
    (running : o.asm = false) (fuel : Nat) :
    leaves asks fuel arguments files target =
      match (load (.ofBytes source)).result with
      | .ok program =>
        (Machine.run fuel {} program ⟨input.map .ofBytes, some {}⟩).map fun r =>
          (exitCode r.machine.state, some r.written)
      | .error _ => some (1, some .empty) := by
  obtain ⟨terminal, left⟩ := supplied.leaves_eq fuel
  rw [left, start, suppliedSources]
  simp only [running, Bool.false_eq_true, if_false]
  cases (load (.ofBytes source)).result with
  | error e => rfl
  | ok program =>
    let job : Job := ⟨o, program, {}⟩
    let s := Session.start job (input.map .ofBytes) terminal
    have collects : s.streams.Collects .empty := ⟨{}, rfl, rfl, rfl⟩
    have ended (notices : Array Notice) :
        (Session.finish job notices 0 fuel s).map (fun e => (e.exitCode, e.output)) =
          (Machine.run fuel {} program s.streams).map fun r =>
            (exitCode r.machine.state, r.written) :=
      (Session.finish_eq_resume supplied.cooked rfl collects notices 0 fuel #[]).trans
        (resume_exitCode job.config program fuel s.streams)
    have kept := fun notices => congrArg (Option.map (Prod.map id some)) (ended notices)
    simp only [Option.map_map] at kept
    exact kept _

/-- Executing gives an output exactly if the source is loaded and the run halts with that output. -/
theorem execute_eq_ok_iff {fuel : Nat} {bytes : List UInt8} {out : ByteArray} :
    (∃ events, execute fuel source bytes = some ⟨.ok out, events⟩) ↔
      ∃ program, (load (.ofBytes source)).result = .ok program ∧
        (Machine.run fuel {} program ⟨some (.ofBytes bytes), some {}⟩).map (fun r =>
          (exitCode r.machine.state, some r.written)) = some (0, some out) := by
  rw [execute]
  cases (load (.ofBytes source)).result with
  | error e => simp
  | ok program =>
    simp only [Except.ok.injEq, exists_eq_left']
    rw [Machine.run]
    cases ended : Machine.resume {} program fuel (.start program)
        ⟨some (.ofBytes bytes), some {}⟩ #[] with
    | none => simp
    | some r =>
      obtain ⟨halts, faults⟩ := Machine.state_of_resume rfl ended
      cases result : r.result with
      | ok _ => simp [halts.mp result, exitCode, result, Machine.Run.written]
      | error f => simp [faults.mp ⟨f, result⟩, exitCode, result]

/-- What is decoded has its counts, too. -/
theorem exists_decoding {source : Input} {is : List Instruction}
    (decoded : (decode source).map Decoding.instructions = .ok is) :
    ∃ d, decode source = .ok d ∧ d.instructions = is := by
  cases read : decode source with
  | error e =>
    rw [read] at decoded
    cases decoded
  | ok d =>
    rw [read] at decoded
    exact ⟨d, rfl, Except.ok.inj decoded⟩

/-- An empty source is decoded to nothing. -/
theorem decode_nil : ∃ d, decode (.ofBytes []) = .ok d ∧ d.instructions = [] :=
  exists_decoding ((decode_eq_nil_iff (Input.reliable_ofBytes [])).mpr fun t => by simp)

/-- **The command agrees with the stages.**  Let some arguments ask to read a source and to write a
file, with or without traces, and let what is read be supplied in whichever way.

* With a listing, the file holds what disassembling gives, and the command succeeds; or the source
  cannot be decoded, and the command fails and leaves nothing.  Nothing is linked.
* Without, the command fails and leaves nothing if the source cannot be loaded.  Else it ends if the
  run ends, the file holds what the machine has written, and the exit code is zero if the machine
  has halted and not if it has faulted.
* So if there is an input, the command succeeds with an output exactly if executing the source on
  the input gives that output.
* Other arguments and other files with the same source and the same input leave the same, as do any
  with the same source when it is listed: it makes no difference what comes from standard input.
* An empty file is an empty source, which is listed as nothing and cannot be loaded. -/
theorem command_agrees (supplied : Supplied asks arguments files o source input target)
    (fuel : Nat) :
    (o.asm = true → leaves asks fuel arguments files target =
      some (match (disassemble (.ofBytes source)).result with
        | .ok text => (0, some text.toUTF8)
        | .error _ => (1, some .empty))) ∧
    (o.asm = false →
      leaves asks fuel arguments files target =
        (match (load (.ofBytes source)).result with
        | .ok program =>
          (Machine.run fuel {} program ⟨input.map .ofBytes, some {}⟩).map fun r =>
            (exitCode r.machine.state, some r.written)
        | .error _ => some (1, some .empty)) ∧
      ∀ bytes, input = some bytes → ∀ out,
        leaves asks fuel arguments files target = some (0, some out) ↔
          ∃ events, execute fuel source bytes = some ⟨.ok out, events⟩) ∧
    (∀ arguments' files' o' input' target',
      Supplied asks arguments' files' o' source input' target' → o'.asm = o.asm →
      (o.asm = true ∨ input' = input) →
      leaves asks fuel arguments' files' target' = leaves asks fuel arguments files target) ∧
    (source = [] →
      leaves asks fuel arguments files target = some (if o.asm then 0 else 1, some .empty)) := by
  refine ⟨fun listing => supplied.leaves_listing listing fuel,
    fun running => ⟨supplied.leaves_run running fuel, ?_⟩, ?_, ?_⟩
  · rintro bytes rfl out
    rw [supplied.leaves_run running fuel, execute_eq_ok_iff]
    cases (load (.ofBytes source)).result with
    | error e => simp
    | ok program => simp
  · intro arguments' files' o' input' target' supplied' same other
    cases listing : o.asm with
    | true =>
      rw [supplied.leaves_listing listing, supplied'.leaves_listing (same.trans listing)]
    | false =>
      obtain rfl : input' = input := other.resolve_left (by simp [listing])
      rw [supplied.leaves_run listing, supplied'.leaves_run (same.trans listing)]
  · rintro rfl
    obtain ⟨d, decoded, nothing⟩ := decode_nil
    cases listing : o.asm with
    | true =>
      rw [supplied.leaves_listing listing, disassemble, decoded]
      simp only [nothing]
      rfl
    | false =>
      rw [supplied.leaves_run listing, load, decoded]
      simp only [nothing, Linking.link_eq_empty_iff.mpr]
      rfl

theorem eq_ok_of_toOption {ε α : Type} {x : Except ε α} {a : α} (h : x.toOption = some a) :
    x = .ok a := by
  cases x with
  | ok b =>
    cases h
    rfl
  | error e => cases h

/-- A digit is read from a file and printed to a file that does not exist yet. -/
theorem command_agrees_digit :
    let arguments := ["-dq", "-f", "src/echo.ws", "-i", "in", "-o", "src/out"]
    let source : List UInt8 := [0x20, 0x20, 0x20, 0x0A, 0x09, 0x0A, 0x09, 0x09, 0x20, 0x20, 0x20,
      0x0A, 0x09, 0x09, 0x09, 0x09, 0x0A, 0x20, 0x09, 0x0A, 0x0A, 0x0A]
    let files : Files :=
      ⟨[("src/echo.ws", ⟨source.toArray⟩), ("in", ⟨#[0x37]⟩)], .empty, {}⟩
    let asks := Invocation.ofArguments
    (∃ o, Supplied asks arguments files o source (some [0x37]) ["src", "out"]) ∧
      leaves asks 7 arguments files ["src", "out"] = some (0, some "7".toUTF8) := by
  intro arguments source files asks
  let o : Options :=
    ⟨some "src/echo.ws", some "in", some "src/out", false, false, true, false, true⟩
  have supplied : Supplied asks arguments files o source (some [0x37]) ["src", "out"] :=
    ⟨by decide +kernel, rfl, ⟨"src/out", rfl, eq_ok_of_toOption (by decide +kernel)⟩,
      ⟨["src", "echo.ws"], ⟨source.toArray⟩, eq_ok_of_toOption (by decide +kernel), by decide,
        by decide +kernel, by decide +kernel⟩,
      ⟨[0x37], rfl, ["in"], ⟨#[0x37]⟩, eq_ok_of_toOption (by decide +kernel), by decide,
        by decide +kernel, by decide +kernel⟩⟩
  let is : List Instruction := [.number .push 0, .plain (.read .number), .number .push 0,
    .plain .load, .plain (.print .number), .plain .stop]
  have spelled : List.Forall₂ Instruction.IsSpelling is [_, _, _, _, _, _] :=
    .cons (.number .push false []) (.cons (.plain (.read .number)) (.cons (.number .push false [])
      (.cons (.plain .load) (.cons (.plain (.print .number)) (.cons (.plain .stop) .nil)))))
  have tokens : significant (Input.ofBytes source).bytes = significant source := by
    rw [Input.bytes_ofBytes]
  obtain ⟨d, decoded, same⟩ := exists_decoding
    (decode_of_words (Input.reliable_ofBytes source) spelled (tokens ▸ by decide) List.nodup_nil)
  have loaded : ∃ program, (load (.ofBytes source)).result = .ok program ∧
      (Machine.run 7 {} program ⟨some (.ofBytes [0x37]), some {}⟩).map (fun r =>
        (exitCode r.machine.state, some r.written)) = some (0, some "7".toUTF8) := by
    rw [load, decoded]
    simp only [same]
    exact ⟨_, rfl, by decide +kernel⟩
  obtain ⟨program, loaded, ran⟩ := loaded
  refine ⟨⟨o, supplied⟩, ?_⟩
  obtain ⟨-, running, -⟩ := command_agrees supplied 7
  obtain ⟨left, -⟩ := running rfl
  rw [loaded] at left
  exact left.trans ran

end Command

end Whitespace
