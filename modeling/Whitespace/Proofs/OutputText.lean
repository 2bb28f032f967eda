import Whitespace.Interpreter
import Whitespace.Proofs.Journal
import Whitespace.Proofs.TextRoundTrip

/-!
# Output is text

A sink that keeps everything has, after any steps, the bytes it had before and behind them the bytes
of the texts printed since (`Machine.collects_of_steps`).  So what a program has printed is a text
in UTF-8, whenever one looks; and decoding it, as a browser does, loses nothing (`output_text`).

## Main definitions

* `Streams.Collects s written` — the output of the streams keeps everything and has these bytes.
* `IsScalar word` — the word is the code of a character.
* `Machine.textOf config program n m streams` — the text printed in the next `n` steps.
-/

namespace Whitespace

/-! ## Printing a word -/

/-- A word is the code of a character. -/
def IsScalar (word : Int64) : Prop :=
  0 ≤ word.toInt ∧ word.toInt ≤ 0x10FFFF ∧ ¬(0xD800 ≤ word.toInt ∧ word.toInt ≤ 0xDFFF)

variable {word : Int64} {format : Format}

/-- The codes of characters are the words that are printed as characters. -/
theorem character?_eq_some (scalar : IsScalar word) :
    character? word = some (Char.ofNat word.toInt.toNat) := by
  obtain ⟨natural, most, surrogate⟩ := scalar
  have valid : word.toInt.toNat.isValidChar := by
    rw [Nat.isValidChar]
    omega
  have positive : 0 ≤ word := by
    rw [Int64.le_iff_toInt_le]
    exact natural
  rw [character?, if_pos ⟨positive, valid⟩]

theorem character?_eq_none (no_scalar : ¬IsScalar word) : character? word = none := by
  rw [character?, if_neg]
  rintro ⟨positive, valid⟩
  rw [Int64.le_iff_toInt_le] at positive
  have natural : 0 ≤ word.toInt := positive
  refine no_scalar ⟨natural, ?_, ?_⟩
  · rw [Nat.isValidChar] at valid
    omega
  · rw [Nat.isValidChar] at valid
    omega

/-- What a word is printed as, in UTF-8. -/
theorem Format.print_text {text : List Char} (h : format.print word = .ok text) :
    Utf8.encode text = (Printed.mk format word).text.toUTF8 := by
  cases format with
  | number =>
    cases h
    rw [Printed.text, ← Decimal.ofList_render, String.toUTF8_eq_toByteArray,
      String.toByteArray_ofList]
    rfl
  | character =>
    by_cases scalar : IsScalar word
    · simp only [print, character?_eq_some scalar] at h
      cases h
      rfl
    · simp only [print, character?_eq_none scalar] at h
      cases h

/-! ## Streams that collect -/

namespace Streams

/-- The output keeps everything and has these bytes so far. -/
def Collects (s : Streams) (written : ByteArray) : Prop :=
  ∃ sink, s.output = some sink ∧ sink.device = .collecting ∧ sink.written = written

variable {s : Streams} {written : ByteArray}

theorem Collects.unique {other : ByteArray} (h : s.Collects written) (h' : s.Collects other) :
    written = other := by
  obtain ⟨sink, output, -, rfl⟩ := h
  obtain ⟨sink', output', -, rfl⟩ := h'
  obtain rfl := Option.some.inj (output.symm.trans output')
  rfl

/-- A flush changes nothing that has been written. -/
theorem Collects.flush (h : s.Collects written) :
    s.flush.1 = none ∧ s.flush.2.Collects written := by
  obtain ⟨⟨device, transcript⟩, output, rfl, same⟩ := h
  simp only [Streams.flush, output]
  exact ⟨rfl, _, rfl, rfl, same⟩

end Streams

variable {written : ByteArray} {w : World}

/-- The effect of printing to streams that collect: the text is written, or nothing is. -/
theorem PlainOp.effect_print (collects : w.streams.Collects written) {below : List Int64}
    (stack : w.stack = word :: below) (format : Format) :
    (∃ text, format.print word = .ok text ∧ ((print format).effect w).1 = .ok .next ∧
        ((print format).effect w).2.streams.Collects (written ++ Utf8.encode text)) ∨
      ∃ cause, format.print word = .error cause ∧ ((print format).effect w).1 = .error cause ∧
        ((print format).effect w).2.streams = w.streams := by
  obtain ⟨⟨device, transcript⟩, output, rfl, rfl⟩ := collects
  cases printed : format.print word with
  | error cause =>
    right
    refine ⟨cause, rfl, ?_⟩
    simp only [effect, output, stack, printed]
    exact ⟨rfl, rfl⟩
  | ok text =>
    left
    refine ⟨text, rfl, ?_⟩
    simp only [effect, output, stack, printed]
    exact ⟨rfl, _, rfl, rfl, rfl⟩

/-- Reading from the input writes nothing to streams that collect. -/
theorem PlainOp.effect_read (collects : w.streams.Collects written) (format : Format) :
    ((read format).effect w).2.streams.Collects written := by
  obtain ⟨kept, flushed⟩ := collects.flush
  rcases w with ⟨stack, calls, heap, streams⟩
  simp only [effect]
  split
  · exact collects
  · exact collects
  · next input address below _ =>
    rcases flush : streams.flush with ⟨failure, streams'⟩
    rw [flush] at kept flushed
    obtain rfl : failure = none := kept
    obtain ⟨sink, output, device, same⟩ := flushed
    cases format.reading input with
    | ok word input' => exact ⟨sink, output, device, same⟩
    | error cause input' => exact ⟨sink, output, device, same⟩

namespace Machine

/-- The text that is printed in the next steps. -/
def textOf (config : Config) (program : Program) (n : Nat) (m : Machine) (streams : Streams) :
    String :=
  String.join ((printed config program n m streams).map Printed.text)

variable {config : Config} {program : Program} {m : Machine} {streams : Streams} {node : Node}

/-- **What a step writes**: the text of what it prints, and nothing else. -/
theorem step_collects (config : Config) (program : Program) (m : Machine)
    (collects : streams.Collects written) :
    (m.step config program streams).streams.Collects
      (written ++ ((print? program m streams).elim "" Printed.text).toUTF8) := by
  have collects' : (m.walker id streams).world.streams.Collects written := collects
  have nothing : written ++ ((none : Option Printed).elim "" Printed.text).toUTF8 = written :=
    ByteArray.append_empty
  obtain ⟨node, format, word, finds⟩ | ⟨node, format, word, finds⟩ | ⟨silent, same | flushed⟩ :=
    step_streams config program m streams
  · obtain ⟨below, stack⟩ := finds.stack streams
    rw [finds.step_streams streams config, finds.print?_eq streams]
    obtain ⟨text, printed, succeeded, collects⟩ | ⟨cause, -, failed, same⟩ :=
      PlainOp.effect_print collects' stack format
    · rw [succeeded]
      rw [Format.print_text printed] at collects
      exact collects
    · rw [failed, same]
      exact nothing.symm ▸ collects
  · rw [finds.step_streams streams config, finds.print?_eq_none streams, nothing]
    exact PlainOp.effect_read collects' format
  · rw [same, silent, nothing]
    exact collects
  · rw [flushed, silent, nothing]
    exact collects.flush.2

/-- **When a print succeeds**: always for a number, and for the code of a character.  Else it fails
and writes nothing. -/
theorem Finds.step_print (finds : m.Finds program node (.print format) word)
    (collects : streams.Collects written) (config : Config) :
    ((format = .character → IsScalar word) →
      print? program m streams = some ⟨format, word⟩ ∧
        (m.step config program streams).result = onward node) ∧
    (format = .character ∧ ¬IsScalar word →
      print? program m streams = none ∧
        (m.step config program streams).result =
          .error ⟨.invalidCharacter word, some ⟨node.instruction, node.index⟩⟩ ∧
        (m.step config program streams).streams = streams) := by
  have collects' : (m.walker id streams).world.streams.Collects written := collects
  have effect := finds.effect streams
  obtain ⟨below, stack⟩ := finds.stack streams
  have ends := PlainOp.effect_print collects' stack format
  rw [finds.print?_eq streams, finds.step_streams streams config]
  constructor
  · intro scalar
    have printable : ∃ text, format.print word = .ok text := by
      cases format with
      | number => exact ⟨_, rfl⟩
      | character => exact ⟨_, by rw [Format.print, character?_eq_some (scalar rfl)]⟩
    obtain ⟨text, printable⟩ := printable
    obtain ⟨_, -, succeeded, -⟩ | ⟨cause, failed, -⟩ := ends
    · rw [succeeded]
      exact ⟨rfl, result_of_next finds.toExecutes config (by rw [effect, succeeded])⟩
    · rw [printable] at failed
      cases failed
  · rintro ⟨rfl, no_scalar⟩
    have unprintable : Format.print .character word = .error (.invalidCharacter word) := by
      rw [Format.print, character?_eq_none no_scalar]
    obtain ⟨text, printed, -⟩ | ⟨cause, refused, failed, unchanged⟩ := ends
    · rw [unprintable] at printed
      cases printed
    · rw [unprintable] at refused
      cases refused
      rw [failed]
      exact ⟨rfl, result_of_error finds.toExecutes config (by rw [effect, failed]), unchanged⟩

/-- The text of some steps is that of the first, and behind it that of the others. -/
theorem textOf_succ (config : Config) (program : Program) (n : Nat) (m : Machine)
    (streams : Streams) :
    textOf config program (n + 1) m streams =
      (print? program m streams).elim "" Printed.text ++
        textOf config program n (m.step config program streams).machine
          (m.step config program streams).streams := by
  rw [textOf, printed, journal]
  cases print? program m streams with
  | none => exact (String.empty_append).symm
  | some p => exact String.join_cons

/-- **What some steps write**: the text that they print, and nothing else. -/
theorem collects_of_steps (config : Config) (program : Program) (n : Nat) (m : Machine)
    (collects : streams.Collects written) :
    (after config program n m streams).2.Collects
      (written ++ (textOf config program n m streams).toUTF8) := by
  induction n generalizing m streams written with
  | zero =>
    have nothing : written ++ (textOf config program 0 m streams).toUTF8 = written :=
      ByteArray.append_empty
    rw [nothing]
    exact collects
  | succ n ih =>
    have later := ih (m.step config program streams).machine
      (step_collects config program m collects)
    rw [ByteArray.append_assoc, String.toUTF8_eq_toByteArray, String.toUTF8_eq_toByteArray,
      ← String.toByteArray_append, ← textOf_succ] at later
    exact later

end Machine

/-- Bytes that spell a text are decoded to it. -/
theorem decode_toUTF8 (text : String) : String.ofList (Utf8.decode text.toUTF8.toList) = text := by
  rw [toList_toUTF8, Utf8.decode_flatMap, String.ofList_toList]

/-- What a source prints is the text that some steps print. -/
theorem exists_text_of_execute {fuel : Nat} {source input : List UInt8} {bytes : ByteArray}
    {events : List Event} (h : execute fuel source input = some ⟨.ok bytes, events⟩) :
    ∃ text : String, bytes = text.toUTF8 := by
  simp only [execute] at h
  cases loaded : (load (.ofBytes source)).result with
  | error e => simp [loaded] at h
  | ok program =>
    simp only [loaded, Option.map_eq_some_iff] at h
    obtain ⟨run, ended, h⟩ := h
    have start : Streams.Collects ⟨some (.ofBytes input), some {}⟩ .empty := ⟨{}, rfl, rfl, rfl⟩
    obtain ⟨n, streams⟩ := Machine.streams_of_resume ended
    obtain ⟨sink, output, -, written⟩ :=
      Machine.collects_of_steps {} program n (Machine.start program) start
    rw [← streams] at output
    rw [ByteArray.empty_append] at written
    cases result : run.result with
    | error f => simp [result] at h
    | ok _ =>
      simp only [result, output, Option.map_some, Option.getD_some, Reported.mk.injEq,
        Except.ok.injEq] at h
      exact ⟨_, h.1.symm.trans written⟩

/-- **Output is text, and the text is the output.**  Let the output keep everything.  After any
steps of any program on any input, it has what it had before and behind it the texts of the words
that have been printed, in order: the decimal form of a word printed as a number, and the character
of a word printed as a character.  Each step only adds what it prints itself.  A number is always
printed, and a character if there is one with that code; else the step fails for this reason and
writes nothing.  So an output that was empty is well-formed UTF-8, and a browser gets exactly the
text whose bytes are what is printed. -/
theorem output_text {streams : Streams} (collects : streams.Collects written) (config : Config)
    (program : Program) (m : Machine) :
    (∀ n, (Machine.after config program n m streams).2.Collects
      (written ++ (Machine.textOf config program n m streams).toUTF8)) ∧
    (m.step config program streams).streams.Collects
      (written ++ ((m.print? program streams).elim "" Printed.text).toUTF8) ∧
    (∀ node format word, m.Executes program node → node.instruction = .plain (.print format) →
      m.stack.peek? = some word →
      ((format = .character → IsScalar word) →
        m.print? program streams = some ⟨format, word⟩ ∧
          (m.step config program streams).result = Machine.onward node) ∧
      (format = .character ∧ ¬IsScalar word →
        m.print? program streams = none ∧
          (m.step config program streams).result =
            .error ⟨.invalidCharacter word, some ⟨node.instruction, node.index⟩⟩ ∧
          (m.step config program streams).streams = streams)) ∧
    (written = .empty → ∀ n, ∃ bytes, (Machine.after config program n m streams).2.Collects bytes ∧
      bytes.IsValidUTF8) ∧
    ∀ fuel source input bytes events,
      execute fuel source.toUTF8.toList input.toUTF8.toList = some ⟨.ok bytes, events⟩ →
      ∃ text, executeText fuel source input = some ⟨.ok text, events⟩ ∧ text.toUTF8 = bytes := by
  have run := fun n => Machine.collects_of_steps config program n m collects
  refine ⟨run, Machine.step_collects config program m collects, ?_, ?_, ?_⟩
  · intro node format word executes print top
    exact Machine.Finds.step_print ⟨executes, print, top⟩ collects config
  · rintro rfl n
    refine ⟨_, run n, ?_⟩
    rw [ByteArray.empty_append]
    exact String.isValidUTF8 _
  · intro fuel source input bytes events printed
    obtain ⟨text, rfl⟩ := exists_text_of_execute printed
    refine ⟨text, ?_, rfl⟩
    simp only [executeText, printed, Option.map_some, Except.map, decode_toUTF8]

/-- A letter of two bytes and a negative number are printed, and then half of a surrogate pair is
refused. -/
theorem output_text_refused :
    let is := [.number .push 955, .plain (.print .character), .number .push (-7),
      .plain (.print .number), .number .push 0xD800, .plain (.print .character), .plain .stop]
    ∃ l, link is = .ok l ∧
      let now := Machine.after {} l.program 5 (Machine.start l.program) ⟨none, some {}⟩
      now.2.Collects "λ-7".toUTF8 ∧
        (now.1.step {} l.program now.2).result =
          .error ⟨.invalidCharacter 0xD800, some ⟨.plain (.print .character), 5⟩⟩ := by
  intro is
  let l : Linking := ⟨⟨#[⟨0, .number .push 955, some 1, none⟩,
    ⟨1, .plain (.print .character), some 2, none⟩, ⟨2, .number .push (-7), some 3, none⟩,
    ⟨3, .plain (.print .number), some 4, none⟩, ⟨4, .number .push 0xD800, some 5, none⟩,
    ⟨5, .plain (.print .character), some 6, none⟩, ⟨6, .plain .stop, none, none⟩]⟩, 0, 7⟩
  have linked : link is = .ok l := rfl
  refine ⟨l, linked, ?_⟩
  intro now
  have start : Streams.Collects ⟨none, some {}⟩ .empty := ⟨{}, rfl, rfl, rfl⟩
  have text : Machine.textOf {} l.program 5 (Machine.start l.program) ⟨none, some {}⟩ = "λ-7" := by
    decide +kernel
  have collects : now.2.Collects "λ-7".toUTF8 := by
    have run := (output_text start {} l.program (Machine.start l.program)).1 5
    rwa [text, ByteArray.empty_append] at run
  have executes : now.1.Executes l.program ⟨5, .plain (.print .character), some 6, none⟩ :=
    ⟨by decide +kernel, by decide +kernel⟩
  have top : now.1.stack.peek? = some 0xD800 := by decide +kernel
  obtain ⟨-, -, print, -⟩ := output_text collects {} l.program now.1
  have refused := (print _ .character 0xD800 executes rfl top).2 ⟨rfl, by simp [IsScalar]⟩
  exact ⟨collects, refused.2.1⟩

end Whitespace
