import Whitespace.Proofs.OutputText
import Whitespace.Proofs.ReliableReading

/-!
# What is printed can be read

A number is printed with a line feed behind it, and a character as it is.  Whoever reads what was
printed, in the same order and the same formats, gets the same words (`read_printed`), however it is
delivered.  A read takes exactly the bytes of what it reads: a number its line and no more, and a
character nothing else, though it may be a space, a digit or a line feed itself.

## Main definitions

* `Datum` — a number or a character that is printed, to be read again.
* `Streams.Feeds s bytes` — the input of the streams has exactly these bytes, and neither it nor a
  flush of the output will fail.
-/

namespace Whitespace

/-- A number or a character. -/
inductive Datum where
  | number (v : Int64)
  | character (c : Char)
  deriving DecidableEq, Repr

namespace Datum

/-- The format in which a datum is read. -/
def format : Datum → Format
  | number _ => .number
  | character _ => .character

/-- The word that a datum is: a number itself, or the code of a character. -/
def word : Datum → Int64
  | number v => v
  | character c => .ofNat c.toNat

/-- What is printed for a datum: a number on a line of its own, or a character. -/
def prints : Datum → List Printed
  | number v => [⟨.number, v⟩, ⟨.character, 10⟩]
  | character c => [⟨.character, .ofNat c.toNat⟩]

/-- The bytes of a datum. -/
def bytes : Datum → List UInt8
  | number v => Reading.numeral v ++ [0x0A]
  | character c => String.utf8EncodeChar c

/-- The code of a character, as a number again. -/
theorem toInt_code (c : Char) : (Int64.ofNat c.toNat).toInt = c.toNat := by
  have small : c.toNat < 0x110000 := by
    have valid : c.toNat.isValidChar := c.valid
    rw [Nat.isValidChar] at valid
    omega
  exact Int64.toInt_ofNat_of_lt (by omega)

/-- What is printed for a datum are its bytes. -/
theorem text_prints (d : Datum) :
    (String.join (d.prints.map Printed.text)).toList.flatMap String.utf8EncodeChar = d.bytes := by
  cases d with
  | number v =>
    have decimal : (toString v.toInt).toList = Decimal.render v.toInt := by
      rw [← Decimal.ofList_render, String.toList_ofList]
    simp only [prints, bytes, List.map_cons, List.map_nil, String.toList_join, List.flatMap_cons,
      List.flatMap_nil, Printed.text, decimal, List.flatMap_append, Reading.numeral]
    rfl
  | character c =>
    simp only [prints, bytes, List.map_cons, List.map_nil, String.toList_join, List.flatMap_cons,
      List.flatMap_nil, Printed.text, toInt_code, Int.toNat_natCast, Char.ofNat_toNat]
    simp

/-- **A datum is read from its bytes**, and what stands behind them is left. -/
theorem reads (d : Datum) (rest : List UInt8) :
    Reading.Reads d.format.reading (d.bytes ++ rest) d.word rest := by
  cases d with
  | number v =>
    have line := Reading.reads_number v rest
    rwa [bytes, List.append_assoc, List.singleton_append]
  | character c =>
    exact Reading.reads_bind (Reading.reads_character c rest) (Reading.reads_pure _ rest)

end Datum

/-! ## Streams that can be read -/

/-- Whatever the answer, a sink keeps its device. -/
theorem Sink.write_device (sink : Sink) (bytes : ByteArray) :
    (sink.write bytes).2.device = sink.device := by
  rw [write]
  split <;> rfl

theorem Sink.flush_device (sink : Sink) : sink.flush.2.device = sink.device := by
  rw [flush]
  split <;> rfl

namespace Streams

/-- The input has exactly these bytes, and neither it nor a flush of the output will fail. -/
structure Feeds (s : Streams) (bytes : List UInt8) : Prop where
  input : ∃ input, s.input = some input ∧ input.Offers bytes
  output : ∀ sink, s.output = some sink → ∀ past, sink.device.refuseFlush past = none

variable {s : Streams} {bytes : List UInt8}

/-- A flush leaves the input alone and does not fail. -/
theorem Feeds.flush (h : s.Feeds bytes) : s.flush.1 = none ∧ s.flush.2.Feeds bytes := by
  rcases s with ⟨input, _ | sink⟩
  · exact ⟨rfl, h⟩
  · have quiet := h.output sink rfl
    refine ⟨?_, h.input, ?_⟩
    · simp only [Streams.flush, Sink.flush, quiet]
    · rintro _ ⟨⟩
      rw [Sink.flush_device]
      exact quiet

/-- A write leaves the input alone. -/
theorem Feeds.write (h : s.Feeds bytes) {sink : Sink} (output : s.output = some sink)
    (text : ByteArray) : ({ s with output := some (sink.write text).2 } : Streams).Feeds bytes := by
  refine ⟨h.input, ?_⟩
  rintro _ ⟨⟩
  rw [Sink.write_device]
  exact h.output sink output

end Streams

variable {bytes rest : List UInt8} {w : World}

/-- Printing leaves the input alone. -/
theorem PlainOp.effect_print_feeds (feeds : w.streams.Feeds bytes) (format : Format) :
    ((print format).effect w).2.streams.Feeds bytes := by
  rcases w with ⟨stack, calls, heap, streams⟩
  simp only [effect]
  split
  · exact feeds
  · exact feeds
  · next sink word below output =>
    cases format.print word with
    | error cause => exact feeds
    | ok text =>
      have written := feeds.write output (Utf8.encode text)
      dsimp only
      cases (sink.write (Utf8.encode text)).1 with
      | none => exact written
      | some message => exact written

/-- The effect of reading what is offered: it is stored at the address. -/
theorem PlainOp.effect_read_feeds (feeds : w.streams.Feeds bytes) {format : Format} {word : Int64}
    (reads : Reading.Reads format.reading bytes word rest) {address : Int64} {below : List Int64}
    (stack : w.stack = address :: below) :
    ∃ streams : Streams, streams.Feeds rest ∧
      (read format).effect w =
        (.ok .next, ⟨below, w.calls, Function.update w.heap address word, streams⟩) := by
  rcases w with ⟨_, calls, heap, streams⟩
  obtain rfl := stack
  obtain ⟨kept, flushed⟩ := feeds.flush
  obtain ⟨input, given, offers⟩ := feeds.input
  obtain ⟨input', returned, left⟩ := reads input offers
  have given : streams.input = some input := given
  rcases flush : streams.flush with ⟨failure, streams'⟩
  rw [flush] at kept flushed
  obtain rfl : failure = none := kept
  refine ⟨{ streams' with input := some input' }, ⟨⟨input', rfl, left⟩, flushed.output⟩, ?_⟩
  simp only [effect, given, flush, returned]
  rfl

namespace Machine

variable {config : Config} {program : Program} {m : Machine} {streams : Streams}

/-- Only reads take anything from the input. -/
theorem step_feeds (feeds : streams.Feeds bytes) (config : Config)
    (silent : read? program m streams = none) :
    (m.step config program streams).streams.Feeds bytes := by
  obtain ⟨node, format, word, finds⟩ | ⟨node, format, address, finds⟩ | ⟨-, same | flushed⟩ :=
    step_streams config program m streams
  · rw [finds.step_streams streams config]
    exact PlainOp.effect_print_feeds (w := (m.walker id streams).world) feeds format
  · rw [finds.read?_eq streams] at silent
    split at silent <;> cases silent
  · rw [same]
    exact feeds
  · rw [flushed]
    exact feeds.flush.2

/-- **A read of what is offered** is carried out: the word is stored at its address, the bytes
behind it are left, and the machine goes on. -/
theorem step_reads (config : Config) {d : Datum} (feeds : streams.Feeds (d.bytes ++ rest))
    {r : Receipt} (noted : read? program m streams = some r) (format : r.format = d.format) :
    r.stored = some d.word ∧ (m.step config program streams).streams.Feeds rest ∧
      (m.step config program streams).machine.heap.get =
        Function.update m.heap.get r.address d.word ∧
      ∃ node, m.Executes program node ∧
        (m.step config program streams).result = onward node := by
  have feeds' : (m.walker id streams).world.streams.Feeds (d.bytes ++ rest) := feeds
  obtain ⟨node, finds⟩ := exists_finds_of_read? noted
  rw [format] at finds
  obtain ⟨below, stack⟩ := finds.stack streams
  obtain ⟨streams', fed, effect⟩ := PlainOp.effect_read_feeds feeds' (d.reads rest) stack
  -- What is noted is what the effect says.
  rw [finds.read?_eq streams, effect] at noted
  have stored := congrArg Receipt.stored (Option.some.inj noted)
  dsimp only at stored
  rw [Function.update_self] at stored
  have world := Walker.visit_world (m.walker id streams) node
  rw [finds.visit streams config, finds.effect, effect] at world
  refine ⟨stored.symm, ?_, congrArg World.heap world, node, finds.toExecutes,
    result_of_next finds.toExecutes config ?_⟩
  · rw [finds.step_streams streams config, effect]
    exact fed
  · rw [finds.effect, effect]

/-- The next step carries out a read: it stores the word at the address and nothing else, and the
machine goes on. -/
def Fulfils (config : Config) (program : Program) (m : Machine) (streams : Streams) (r : Receipt) :
    Prop :=
  ∃ node word, m.Executes program node ∧ r.stored = some word ∧
    (m.step config program streams).machine.heap.get =
      Function.update m.heap.get r.address word ∧
    (m.step config program streams).result = onward node

/-- **What some steps read**, as long as they keep to the formats of the data that are offered:
these data, one after another, and the bytes of the others are left. -/
theorem receipts_of_steps (config : Config) (program : Program) (n : Nat) (m : Machine)
    {data : List Datum} (feeds : streams.Feeds (data.flatMap Datum.bytes))
    (formats : (receipts config program n m streams).map Receipt.format <+:
      data.map Datum.format) :
    (receipts config program n m streams).map Receipt.stored =
        (data.take (receipts config program n m streams).length).map (fun d => some d.word) ∧
      (after config program n m streams).2.Feeds
        ((data.drop (receipts config program n m streams).length).flatMap Datum.bytes) ∧
      ∀ k < n, ∀ r,
        (after config program k m streams).1.read? program (after config program k m streams).2 =
          some r →
        Fulfils config program (after config program k m streams).1
          (after config program k m streams).2 r := by
  induction n generalizing m streams data with
  | zero => exact ⟨rfl, feeds, fun k none_left => absurd none_left (Nat.not_lt_zero k)⟩
  | succ n ih =>
    have split : receipts config program (n + 1) m streams =
        (read? program m streams).toList ++
          receipts config program n (m.step config program streams).machine
            (m.step config program streams).streams := rfl
    cases noted : read? program m streams with
    | none =>
      rw [split, noted, Option.toList_none, List.nil_append] at formats ⊢
      obtain ⟨stored, left, fulfilled⟩ := ih _ (step_feeds feeds config noted) formats
      refine ⟨stored, left, Nat.forall_lt_succ_left.mpr ⟨fun r found => ?_, fulfilled⟩⟩
      cases noted.symm.trans found
    | some r =>
      rw [split, noted, Option.toList_some, List.singleton_append, List.map_cons] at formats
      obtain ⟨d, data, rfl, format, formats⟩ : ∃ d data', data = d :: data' ∧
          r.format = d.format ∧ _ <+: data'.map Datum.format := by
        cases data with
        | nil => cases List.prefix_nil.mp formats
        | cons d data => exact ⟨d, data, rfl, List.cons_prefix_cons.mp formats⟩
      rw [List.flatMap_cons] at feeds
      obtain ⟨word, fed, heap, node, executes, result⟩ := step_reads config feeds noted format
      obtain ⟨stored, left, fulfilled⟩ := ih _ fed formats
      rw [split, noted, Option.toList_some, List.singleton_append]
      refine ⟨?_, left, Nat.forall_lt_succ_left.mpr ⟨fun r' found => ?_, fulfilled⟩⟩
      · rw [List.map_cons, List.length_cons, List.take_succ_cons, List.map_cons, word, stored]
      · cases noted.symm.trans found
        exact ⟨node, d.word, executes, word, heap, result⟩

end Machine

/-- The texts printed for some data are their bytes. -/
theorem text_data (data : List Datum) :
    (String.join ((data.flatMap Datum.prints).map Printed.text)).toUTF8.toList =
      data.flatMap Datum.bytes := by
  rw [toList_toUTF8, String.toList_join, List.flatMap_map, List.flatMap_assoc, List.flatMap_assoc]
  refine List.flatMap_congr fun d _ => ?_
  rw [← d.text_prints, String.toList_join, List.flatMap_map, List.flatMap_assoc]

/-- **What is printed can be read back.** -/
theorem read_printed {data : List Datum}
    {config : Config} {program : Program} {n : Nat} {m : Machine} {streams : Streams}
    {out : ByteArray} (empty : streams.Collects .empty)
    (printed : Machine.printed config program n m streams = data.flatMap Datum.prints)
    (collects : (Machine.after config program n m streams).2.Collects out)
    {config' : Config} {program' : Program} {n' : Nat} {m' : Machine} {streams' : Streams}
    (feeds : streams'.Feeds out.toList)
    (formats : (Machine.receipts config' program' n' m' streams').map Receipt.format <+:
      data.map Datum.format) :
    let receipts := Machine.receipts config' program' n' m' streams'
    let now := fun k => Machine.after config' program' k m' streams'
    receipts.map Receipt.stored = (data.take receipts.length).map (fun d => some d.word) ∧
      (now n').2.Feeds ((data.drop receipts.length).flatMap Datum.bytes) ∧
      (∀ k < n', ∀ r, (now k).1.read? program' (now k).2 = some r →
        Machine.Fulfils config' program' (now k).1 (now k).2 r) ∧
      (receipts.length = data.length →
        receipts.map Receipt.stored = data.map (fun d => some d.word) ∧ (now n').2.Feeds []) := by
  intro receipts now
  have bytes : out.toList = data.flatMap Datum.bytes := by
    have run := Machine.collects_of_steps config program n m empty
    rw [ByteArray.empty_append, Machine.textOf, printed] at run
    rw [← run.unique collects, text_data]
  rw [bytes] at feeds
  obtain ⟨stored, left, fulfilled⟩ := Machine.receipts_of_steps config' program' n' m' feeds formats
  refine ⟨stored, left, fulfilled, fun all => ⟨?_, ?_⟩⟩
  · rw [stored, all, List.take_length]
  · rw [all, List.drop_length] at left
    exact left

/-- The least word, a space and a digit are printed and read back, delivered in parts that divide
the number. -/
theorem read_printed_mixed :
    let printing := [.number .push Int64.minValue, .plain (.print .number), .number .push 10,
      .plain (.print .character), .number .push 32, .plain (.print .character), .number .push 55,
      .plain (.print .character), .plain .stop]
    let reading := [.number .push 1, .plain (.read .number), .number .push 2,
      .plain (.read .character), .number .push 3, .plain (.read .character), .plain .stop]
    let input : Input := ⟨[], [.data "-922337203685".toUTF8.toList, .interruption,
      .data "4775808\n 7".toUTF8.toList]⟩
    ∃ l l', link printing = .ok l ∧ link reading = .ok l' ∧
      (Machine.after {} l.program 8 (Machine.start l.program) ⟨none, some {}⟩).2.Collects
        "-9223372036854775808\n 7".toUTF8 ∧
      (Machine.receipts {} l'.program 6 (Machine.start l'.program) ⟨some input, none⟩).map
        Receipt.stored = [some Int64.minValue, some 32, some 55] ∧
      (Machine.after {} l'.program 6 (Machine.start l'.program) ⟨some input, none⟩).2.Feeds [] := by
  intro printing reading input
  let l : Linking := ⟨⟨#[⟨0, .number .push Int64.minValue, some 1, none⟩,
    ⟨1, .plain (.print .number), some 2, none⟩, ⟨2, .number .push 10, some 3, none⟩,
    ⟨3, .plain (.print .character), some 4, none⟩, ⟨4, .number .push 32, some 5, none⟩,
    ⟨5, .plain (.print .character), some 6, none⟩, ⟨6, .number .push 55, some 7, none⟩,
    ⟨7, .plain (.print .character), some 8, none⟩, ⟨8, .plain .stop, none, none⟩]⟩, 0, 9⟩
  let l' : Linking := ⟨⟨#[⟨0, .number .push 1, some 1, none⟩,
    ⟨1, .plain (.read .number), some 2, none⟩, ⟨2, .number .push 2, some 3, none⟩,
    ⟨3, .plain (.read .character), some 4, none⟩, ⟨4, .number .push 3, some 5, none⟩,
    ⟨5, .plain (.read .character), some 6, none⟩, ⟨6, .plain .stop, none, none⟩]⟩, 0, 7⟩
  have linked : link printing = .ok l := rfl
  have linked' : link reading = .ok l' := rfl
  let data : List Datum := [.number Int64.minValue, .character ' ', .character '7']
  have empty : Streams.Collects ⟨none, some {}⟩ .empty := ⟨{}, rfl, rfl, rfl⟩
  have printed : Machine.printed {} l.program 8 (Machine.start l.program) ⟨none, some {}⟩ =
      data.flatMap Datum.prints := by
    decide +kernel
  have text : Machine.textOf {} l.program 8 (Machine.start l.program) ⟨none, some {}⟩ =
      "-9223372036854775808\n 7" := by
    decide +kernel
  have collects := Machine.collects_of_steps {} l.program 8 (Machine.start l.program) empty
  rw [text, ByteArray.empty_append] at collects
  have feeds : Streams.Feeds ⟨some input, none⟩ "-9223372036854775808\n 7".toUTF8.toList := by
    refine ⟨⟨input, rfl, by simp [Input.Reliable, input], by decide +kernel⟩, ?_⟩
    intro sink none
    cases none
  have formats : (Machine.receipts {} l'.program 6 (Machine.start l'.program)
      ⟨some input, none⟩).map Receipt.format <+: data.map Datum.format := by
    decide +kernel
  have length : (Machine.receipts {} l'.program 6 (Machine.start l'.program)
      ⟨some input, none⟩).length = data.length := by
    decide +kernel
  obtain ⟨-, -, -, all⟩ := read_printed empty printed collects feeds formats
  obtain ⟨stored, left⟩ := all length
  exact ⟨l, l', linked, linked', collects, stored, left⟩

end Whitespace
