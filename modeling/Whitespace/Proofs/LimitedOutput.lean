import Whitespace.Proofs.Lockstep
import Whitespace.Proofs.OutputText

/-!
# Output with a limit

A sink may have room for a number of bytes only.  Compare a run that writes to it with the run that
writes to a sink which keeps everything.  As long as what is printed has room, the two are in
lockstep (`Machine.stepsAlike_of_fits`).  The first print that has none of it left fails, and what
the sink has then are the first bytes of what the other run prints (`Machine.step_of_overflow`); a
character or a number may be cut in two.

## Main definitions

* `Streams.onto device s` — the streams with another device for their output.
* `Streams.written s` — the bytes that the output has kept.
* `Machine.Truncation config program m streams capacity message n` — how the run with a limit ends.
-/

namespace Whitespace

/-- The streams with another device for their output, which has kept the same so far. -/
def Streams.onto (device : Device) : Streams → Streams :=
  .withOutput (Option.map fun sink => { sink with device })

/-- The bytes that the output has kept. -/
def Streams.written (s : Streams) : ByteArray :=
  (s.output.map Sink.written).getD .empty

theorem Streams.Collects.written_eq {s : Streams} {written : ByteArray} (h : s.Collects written) :
    s.written = written := by
  obtain ⟨sink, output, -, rfl⟩ := h
  rw [Streams.written, output]
  rfl

/-! ## Writing with a limit -/

theorem extract_of_size_le {bytes : ByteArray} {n : Nat} (h : bytes.size ≤ n) :
    bytes.extract 0 n = bytes := by
  have all := ByteArray.extract_zero_max_size (a := bytes) (i := n)
  rwa [Nat.max_eq_left h] at all

/-- The first bytes do not depend on what comes behind enough of them. -/
theorem extract_append_of_le {bytes : ByteArray} {n : Nat} (h : n ≤ bytes.size) (more : ByteArray) :
    (bytes ++ more).extract 0 n = bytes.extract 0 n := by
  have none_left : more.extract (0 - bytes.size) (n - bytes.size) = .empty := by
    rw [ByteArray.extract_eq_empty_iff]
    omega
  rw [ByteArray.extract_append, none_left, ByteArray.append_empty]

namespace Sink

variable {capacity : Nat} {t : Transcript} {bytes : ByteArray}

/-- What has room is kept. -/
theorem write_limited_of_le (fits : (t.written ++ bytes).size ≤ capacity) (message : String) :
    (⟨.limited capacity message, t⟩ : Sink).write bytes =
      (none, ⟨.limited capacity message, t.write bytes⟩) := by
  rw [ByteArray.size_append] at fits
  have room : bytes.size ≤ capacity - t.written.size := by omega
  simp only [write, Device.limited, if_pos room]

/-- Of what has no room, as much is kept as brings the sink to its limit. -/
theorem write_limited_of_lt (room : t.written.size ≤ capacity)
    (exceeds : capacity < (t.written ++ bytes).size) (message : String) :
    ∃ t', (⟨.limited capacity message, t⟩ : Sink).write bytes =
        (some message, ⟨.limited capacity message, t'⟩) ∧
      t'.written = (t.written ++ bytes).extract 0 capacity := by
  have full : ¬bytes.size ≤ capacity - t.written.size := by
    rw [ByteArray.size_append] at exceeds
    omega
  refine ⟨t.write (bytes.extract 0 (capacity - t.written.size)), ?_, ?_⟩
  · simp only [write, Device.limited, if_neg full]
  · rw [Transcript.write, ByteArray.extract_append, Nat.zero_sub, extract_of_size_le room]

end Sink

namespace Machine

variable {config : Config} {program : Program} {m : Machine} {streams : Streams} {node : Node}
  {written : ByteArray} {format : Format} {word : Int64} {text : List Char} {capacity : Nat}

/-! ## Steps -/

/-- A print to streams that collect writes its text. -/
theorem Finds.step_collects_print (finds : m.Finds program node (.print format) word)
    (collects : streams.Collects written) (printed : format.print word = .ok text)
    (config : Config) :
    (m.step config program streams).streams.Collects (written ++ Utf8.encode text) := by
  obtain ⟨below, stack⟩ := finds.stack streams
  rw [finds.step_streams streams config]
  obtain ⟨_, same, -, collects⟩ | ⟨cause, refused, -⟩ :=
    PlainOp.effect_print (w := (m.walker id streams).world) collects stack format
  · cases printed.symm.trans same
    exact collects
  · cases printed.symm.trans refused

/-- What is noted as a print could be printed. -/
theorem exists_print_of_print? {p : Printed} (collects : streams.Collects written)
    (noted : print? program m streams = some p) : ∃ text, p.format.print p.word = .ok text := by
  obtain ⟨node, finds⟩ := exists_finds_of_print? noted
  obtain ⟨below, stack⟩ := finds.stack streams
  obtain ⟨text, printed, -⟩ | ⟨cause, -, failed, -⟩ :=
    PlainOp.effect_print (w := (m.walker id streams).world) collects stack p.format
  · exact ⟨text, printed⟩
  · rw [finds.print?_eq streams, failed] at noted
    cases noted

/-- **A step does not notice the limit** if what it prints has room. -/
theorem stepsAlike_of_fits (collects : streams.Collects written)
    (fits : (m.step config program streams).streams.written.size ≤ capacity) (message : String) :
    StepsAlike (.onto (.limited capacity message)) config program (m, streams) := by
  have collects' := collects
  obtain ⟨⟨_, transcript⟩, output, rfl, rfl⟩ := collects'
  rcases streams with ⟨input, _⟩
  obtain rfl : _ = some _ := output
  apply stepsAlike_of_execute config
  intro node executes
  apply Node.execute_via
  · intro _
    exact PlainOp.execute_stop_via m.stack m.calls m.heap _ rfl
  · intro format print
    rcases m.stack.eq_empty_or_push with empty | ⟨stack, word, pushed⟩
    · rw [workspace, empty]
      rfl
    · have finds : m.Finds program node (.print format) word :=
        ⟨executes, print, by rw [pushed, Stack.peek?_push]⟩
      rw [workspace, pushed, Workspace.via]
      simp only [Streams.onto, Streams.withOutput, Option.map_some, PlainOp.execute_print]
      cases printed : format.print word with
      | error cause => rfl
      | ok text =>
        have later := finds.step_collects_print collects printed config
        rw [later.written_eq] at fits
        simp only [Sink.write_limited_of_le fits message]
        rfl
  · intro format _
    exact PlainOp.execute_read_via format m.stack m.calls m.heap _ rfl

/-- **The print that has no room** fails, and leaves the first bytes of what it would have
written. -/
theorem step_of_overflow (collects : streams.Collects written) (room : written.size ≤ capacity)
    (exceeds : capacity < (m.step config program streams).streams.written.size) (message : String) :
    ∃ node format word, m.Finds program node (.print format) word ∧
      (m.step config program streams).streams.written =
        streams.written ++ (Printed.mk format word).text.toUTF8 ∧
      let cut := m.step config program (streams.onto (.limited capacity message))
      cut.result = .error ⟨.io message, some ⟨node.instruction, node.index⟩⟩ ∧
        cut.machine =
          { m with stack := m.stack.pop, state := .faulted, steps := m.steps + 1 } ∧
        cut.streams.input = streams.input ∧
        cut.streams.written =
          (m.step config program streams).streams.written.extract 0 capacity := by
  have after := step_collects config program m collects
  cases noted : print? program m streams with
  | none =>
    rw [noted] at after
    rw [after.written_eq] at exceeds
    have nothing : written ++ ((none : Option Printed).elim "" Printed.text).toUTF8 = written :=
      ByteArray.append_empty
    rw [nothing] at exceeds
    omega
  | some p =>
    obtain ⟨node, finds⟩ := exists_finds_of_print? noted
    obtain ⟨text, printed⟩ := exists_print_of_print? collects noted
    have later := finds.step_collects_print collects printed config
    rw [later.written_eq] at exceeds ⊢
    refine ⟨node, p.format, p.word, finds, ?_, ?_⟩
    · rw [collects.written_eq, Format.print_text printed]
    obtain ⟨⟨_, transcript⟩, output, rfl, rfl⟩ := collects
    rcases streams with ⟨input, _⟩
    obtain rfl : _ = some _ := output
    obtain ⟨full, refused, kept⟩ := Sink.write_limited_of_lt room exceeds message
    obtain ⟨stack, pushed⟩ := finds.stack_eq
    have failed : node.execute (m.workspace
        (Streams.onto (.limited capacity message) ⟨input, some ⟨.collecting, transcript⟩⟩)) =
          .error (.io message)
            ⟨stack, m.calls, m.heap, ⟨input, some ⟨.limited capacity message, full⟩⟩⟩ := by
      rw [node.execute_eq, finds.instruction, workspace, pushed]
      simp only [Streams.onto, Streams.withOutput, Option.map_some, PlainOp.execute_print,
        printed, refused]
    rw [finds.toExecutes.step_of_error failed config, pushed, Stack.pop_push]
    exact ⟨rfl, rfl, rfl, kept⟩

/-! ## Runs -/

/-- What the output has at one time it still has later, with more behind it. -/
theorem exists_written_append (collects : streams.Collects written) (config : Config)
    (program : Program) (m : Machine) {i j : Nat} (later : i ≤ j) :
    ∃ more, (after config program j m streams).2.written =
      (after config program i m streams).2.written ++ more := by
  obtain ⟨d, rfl⟩ := Nat.exists_eq_add_of_le later
  have first := collects_of_steps config program i m collects
  have second := collects_of_steps config program d (after config program i m streams).1 first
  rw [after_add, second.written_eq, first.written_eq]
  exact ⟨_, rfl⟩

/-- What the output has grows. -/
theorem size_written_le (collects : streams.Collects written) (config : Config)
    (program : Program) (m : Machine) {i j : Nat} (later : i ≤ j) :
    (after config program i m streams).2.written.size ≤
      (after config program j m streams).2.written.size := by
  obtain ⟨more, grown⟩ := exists_written_append collects config program m later
  rw [grown, ByteArray.size_append]
  exact Nat.le_add_right _ _

/-- Up to the time when there is no more room, no step notices the limit. -/
theorem stepsAlike_after_of_fits (collects : streams.Collects written) {n : Nat}
    (fits : (after config program n m streams).2.written.size ≤ capacity) (message : String) :
    ∀ k < n, StepsAlike (.onto (.limited capacity message)) config program
      (after config program k m streams) := by
  intro k less
  have now := collects_of_steps config program k m collects
  have grown := size_written_le collects config program m (Nat.succ_le_of_lt less)
  rw [after_succ] at grown
  exact stepsAlike_of_fits now (Nat.le_trans grown fits) message

/-- How the run with a limit ends: with a print that has no room. -/
structure Truncation (config : Config) (program : Program) (m : Machine) (streams : Streams)
    (capacity : Nat) (message : String) (n : Nat) (node : Node) (format : Format) (word : Int64) :
    Prop where
  /-- The step behind `n` others prints the word. -/
  finds : (after config program n m streams).1.Finds program node (.print format) word
  /-- Without the limit, the text of the word is written. -/
  written : (after config program (n + 1) m streams).2.written =
    (after config program n m streams).2.written ++ (Printed.mk format word).text.toUTF8
  /-- With the limit, the step fails because of the sink, and the run ends. -/
  faults : FaultsAt config program n m (streams.onto (.limited capacity message))
    ⟨.io message, some ⟨node.instruction, node.index⟩⟩
  /-- The word has been taken from the stack; the calls and the heap are as they were. -/
  machine : (outcome config program n m (streams.onto (.limited capacity message))).machine =
    { (after config program n m streams).1 with
      stack := (after config program n m streams).1.stack.pop
      state := .faulted
      steps := (after config program n m streams).1.steps + 1 }
  /-- Nothing has been read. -/
  input : (outcome config program n m (streams.onto (.limited capacity message))).streams.input =
    (after config program n m streams).2.input
  /-- The sink has the first bytes of all that is ever written without the limit. -/
  kept : ∀ k, n < k →
    (outcome config program n m (streams.onto (.limited capacity message))).streams.written =
      (after config program k m streams).2.written.extract 0 capacity

/-- **The run ends with the first print that has no room.** -/
theorem exists_truncation (collects : streams.Collects written) {n : Nat}
    (fits : (after config program n m streams).2.written.size ≤ capacity)
    (exceeds : capacity < (after config program (n + 1) m streams).2.written.size)
    (message : String) :
    ∃ node format word,
      Truncation config program m streams capacity message n node format word := by
  have now := collects_of_steps config program n m collects
  have alike := stepsAlike_after_of_fits collects fits message
  have next := after_succ config program n m streams
  rw [next] at exceeds
  rw [now.written_eq] at fits
  obtain ⟨node, format, word, finds, printed, result, machine, input, kept⟩ :=
    step_of_overflow now fits exceeds message
  rw [← outcome_via alike] at result machine input kept
  refine ⟨node, format, word, finds, ?_, faultsAt_via alike finds.running result, machine, input,
    fun k later => ?_⟩
  · rw [next]
    exact printed
  · obtain ⟨more, grown⟩ :=
      exists_written_append collects config program m (Nat.succ_le_of_lt later)
    rw [kept, grown, next, extract_append_of_le (Nat.le_of_lt exceeds)]

/-- **A limit only truncates the output.**  Let a program run on a sink with room for some bytes,
and compare the run that writes to a sink which keeps everything.  At any time when the other run
has written no more than there is room for, both have come to the same machine with the same input
left and the same output, and have returned and reported the same.  If there is always room, the
runs are the same to the end.

Else there is a first step that brings the total above the limit.  It is a print, which fails
because of the sink: its word is gone from the stack, and the calls and the heap are as they were.
This ends the run, and what the sink has then are the first bytes of what the other run ever
writes. -/
theorem limited_output (config : Config) (program : Program) (m : Machine) (input : Option Input)
    (capacity : Nat) (message : String) :
    let limit : Device := .limited capacity message
    let whole : Streams := ⟨input, some {}⟩
    let cut : Streams := ⟨input, some { device := limit }⟩
    let now n := after config program n m whole
    let size n := (now n).2.written.size
    (∀ n, size n ≤ capacity →
      after config program n m cut = ((now n).1, (now n).2.onto limit) ∧
        results config program n m cut = results config program n m whole ∧
        log config program n m cut = log config program n m whole) ∧
    ((∀ n, size n ≤ capacity) → ∀ fuel,
      resume config program fuel m cut #[] =
        (resume config program fuel m whole #[]).map (Run.via (.onto limit))) ∧
    ((∀ n, size n ≤ capacity) ∨ ∃ n, size n ≤ capacity ∧ capacity < size (n + 1)) ∧
    ∀ n, size n ≤ capacity → capacity < size (n + 1) →
      ∃ node format word,
        Truncation config program m whole capacity message n node format word := by
  intro limit whole cut now size
  have start : whole.Collects .empty := ⟨{}, rfl, rfl, rfl⟩
  have alike := fun n (fits : size n ≤ capacity) => stepsAlike_after_of_fits start fits message
  refine ⟨fun n fits => after_via (alike n fits), fun fits fuel => ?_, ?_,
    fun n fits exceeds => exists_truncation start fits exceeds message⟩
  · exact resume_via fuel #[] fun k => alike (k + 1) (fits _) k (Nat.lt_succ_self k)
  · by_cases fits : ∀ n, size n ≤ capacity
    · exact .inl fits
    · right
      obtain ⟨n, exceeds⟩ := not_forall.mp fits
      induction n with
      | zero => exact absurd (Nat.zero_le capacity) exceeds
      | succ n ih =>
        by_cases room : size n ≤ capacity
        · exact ⟨n, room, Nat.lt_of_not_le exceeds⟩
        · exact ih room

/-- A letter of two bytes has room, and then the sign of a negative number, but not its digit. -/
theorem limited_output_number :
    let is := [.number .push 955, .plain (.print .character), .number .push (-7),
      .plain (.print .number), .plain .stop]
    let cut : Streams := ⟨none, some { device := .limited 3 "full" }⟩
    ∃ l, link is = .ok l ∧
      FaultsAt {} l.program 3 (start l.program) cut
        ⟨.io "full", some ⟨.plain (.print .number), 3⟩⟩ ∧
      (outcome {} l.program 3 (start l.program) cut).streams.written = "λ-".toUTF8 := by
  intro is cut
  let l : Linking := ⟨⟨#[⟨0, .number .push 955, some 1, none⟩,
    ⟨1, .plain (.print .character), some 2, none⟩, ⟨2, .number .push (-7), some 3, none⟩,
    ⟨3, .plain (.print .number), some 4, none⟩, ⟨4, .plain .stop, none, none⟩]⟩, 0, 5⟩
  have linked : link is = .ok l := rfl
  refine ⟨l, linked, ?_⟩
  obtain ⟨-, -, -, ends⟩ := limited_output {} l.program (start l.program) none 3 "full"
  obtain ⟨node, format, word, truncation⟩ := ends 3 (by decide +kernel) (by decide +kernel)
  obtain rfl : node = ⟨3, .plain (.print .number), some 4, none⟩ := by
    apply Option.some.inj
    rw [← truncation.finds.stands]
    decide +kernel
  let whole := after {} l.program 4 (start l.program) ⟨none, some {}⟩
  have first_bytes : whole.2.written.extract 0 3 = "λ-".toUTF8 := by
    decide +kernel
  exact ⟨truncation.faults, (truncation.kept 4 (by decide)).trans first_bytes⟩

end Machine

end Whitespace
