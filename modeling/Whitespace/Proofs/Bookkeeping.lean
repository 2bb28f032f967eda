import Mathlib.Algebra.GroupWithZero.Nat
import Mathlib.Data.List.Nodup
import Whitespace.Interpreter
import Whitespace.Proofs.Incremental
import Whitespace.Proofs.ListingReader

/-!
# What a decoder remembers

A decoder remembers how many instructions it has returned, which labels they define and at which
index, and how the last of them is spelled; its reader remembers how many tokens all of them have.
These are kept in different places, and what is reported about a duplicate label or about a source
that has been decoded relies on their agreement.

`Decoder.Remembers` says that they agree.  A call that returns an instruction keeps the agreement
(`Decoder.Remembers.next`), and so does any number of such calls
(`Decoder.exists_remembers`), whatever happens to the source later.

## Main definitions

* `definitions is` — the labels that some instructions define, each with the index of its
  definition.
* `Decoder.Remembers source is words d` — the decoder has returned the instructions, which are
  spelled by the words, and remembers them.
-/

namespace Whitespace

open Instruction (IsSpelling)

/-! ## The table of labels -/

/-- The labels that some instructions define, each with the index of its definition. -/
def definitions (is : List Instruction) : List (Label × Nat) :=
  is.zipIdx.filterMap fun x => x.1.defined?.map (·, x.2)

/-- One instruction more at the end. -/
theorem definitions_concat (is : List Instruction) (i : Instruction) :
    definitions (is ++ [i]) = definitions is ++ (i.defined?.map (·, is.length)).toList := by
  rw [definitions, List.zipIdx_append, List.filterMap_append, Nat.zero_add]
  cases defined : i.defined? <;> simp [definitions, defined]

theorem map_fst_definitions (is : List Instruction) :
    (definitions is).map Prod.fst = definedLabels is := by
  -- An index counts what stands before; so the induction is from the end.
  induction is using List.reverseRecOn with
  | nil => rfl
  | append_singleton is i ih =>
    rw [definitions_concat, definedLabels_concat, List.map_append, ih]
    cases i.defined? <;> rfl

/-- A label is entered with an index if the instruction there defines it. -/
theorem mem_definitions {is : List Instruction} {name : Label} {place : Nat} :
    (name, place) ∈ definitions is ↔ is[place]? = some (.label .define name) := by
  simp only [definitions, List.mem_filterMap, Prod.exists, List.mem_zipIdx_iff_getElem?,
    Option.map_eq_some_iff, Instruction.defined?_eq_some_iff, Prod.mk.injEq]
  constructor
  · rintro ⟨i, index, there, _, rfl, rfl, rfl⟩
    exact there
  · intro there
    exact ⟨_, place, there, name, rfl, rfl, rfl⟩

/-- In a table with one entry for each label, looking a label up finds its entry. -/
theorem lookup_eq_some_iff_mem {table : List (Label × Nat)} (distinct : (table.map Prod.fst).Nodup)
    {name : Label} {place : Nat} : table.lookup name = some place ↔ (name, place) ∈ table := by
  induction table with
  | nil => simp
  | cons entry table ih =>
    obtain ⟨first, index⟩ := entry
    obtain ⟨fresh, later⟩ := List.nodup_cons.mp distinct
    rw [List.lookup_cons, List.mem_cons, Prod.mk.injEq]
    by_cases same : name = first
    · subst same
      have elsewhere : (name, place) ∉ table := fun member =>
        fresh (List.mem_map.mpr ⟨_, member, rfl⟩)
      simp [elsewhere, eq_comm]
    · simp [beq_false_of_ne same, same, ih later]

/-! ## The length of words -/

theorem Opcode.two_le_length_spelling (op : Opcode) : 2 ≤ op.spelling.length := by
  have table : ∀ op ∈ all, 2 ≤ op.spelling.length := by decide
  exact table op (mem_all op)

theorem Opcode.three_le_length_spelling (op : PlainOp) :
    3 ≤ (Opcode.plain op).spelling.length := by
  cases op with
  | duplicate | swap | discard | store | load | ret | stop => decide
  | calculate calculation => cases calculation <;> decide
  | print format | read format => cases format <;> decide

/-- No instruction is spelled with fewer than three tokens. -/
theorem Instruction.IsSpelling.three_le_length {i : Instruction} {word : List Token}
    (spelled : i.IsSpelling word) : 3 ≤ word.length := by
  cases spelled with
  | number op negative bits =>
    have opcode := (Opcode.number op).two_le_length_spelling
    simp only [List.length_append, Literal.spell, List.length_cons, List.length_nil]
    omega
  | label op name closed =>
    have opcode := (Opcode.label op).two_le_length_spelling
    simp only [List.length_append, List.length_cons, List.length_nil]
    omega
  | plain op => exact Opcode.three_le_length_spelling op

namespace Decoder

/-! ## The invariant -/

/-- A decoder has returned some instructions, which are spelled by some words, and remembers
them. -/
structure Remembers (source : Input) (is : List Instruction) (words : List (List Token))
    (d : Decoder) : Prop where
  spelled : List.Forall₂ IsSpelling is words
  signals : source.signals = words.flatten.map Signal.token ++ d.signals
  count : d.count = is.length
  defined : d.defined = (definitions is).reverse
  distinct : (definedLabels is).Nodup
  context : d.context.toList = words.getLastD []
  position : d.reader.position = words.flatten.length
  going : d.done = false

variable {source : Input} {is : List Instruction} {words : List (List Token)} {d d' : Decoder}
  {i : Instruction}

/-- A new decoder has nothing to remember. -/
theorem remembers_ofInput (source : Input) : (ofInput source).Remembers source [] [] :=
  ⟨.nil, rfl, rfl, rfl, List.nodup_nil, rfl, rfl, rfl⟩

/-- The labels that a decoder remembers. -/
theorem Remembers.names (h : d.Remembers source is words) :
    d.names = (definedLabels is).reverse := by
  rw [Decoder.names, h.defined, List.map_reverse, map_fst_definitions]

/-- No label is remembered twice. -/
theorem Remembers.nodup_names (h : d.Remembers source is words) : d.names.Nodup := by
  rw [h.names, List.nodup_reverse]
  exact h.distinct

/-- **What a call leaves** that returns an instruction. -/
theorem eq_of_next (going : d.done = false) (h : d.next = (.instruction i, d')) :
    ∃ word, d.Takes i word d' ∧ ∃ r,
      d' = { d with
        reader := r
        context := word.toArray
        defined := (i.defined?.map (·, d.count)).toList ++ d.defined
        count := d.count + 1 } := by
  -- The instruction was spelled and its label is new, so what the call has done is known.
  obtain ⟨word, takes⟩ := takes_of_next going h
  obtain ⟨r, -, -, next⟩ := next_of_spelling going takes.spelled takes.signals
  have accepted :=
    accept_of_fresh (d := { d with reader := r, context := word.toArray }) takes.fresh
  have left := congrArg Prod.snd ((h.symm.trans next).trans accepted)
  exact ⟨word, takes, r, left⟩

/-- **A call that returns an instruction** adds it to what is remembered. -/
theorem Remembers.next (h : d.Remembers source is words) (next : d.next = (.instruction i, d')) :
    ∃ word, d'.Remembers source (is ++ [i]) (words ++ [word]) := by
  obtain ⟨word, takes, r, left⟩ := eq_of_next h.going next
  have flat : (words ++ [word]).flatten = words.flatten ++ word := by simp
  refine ⟨word,
    { spelled := List.rel_append h.spelled (.cons takes.spelled .nil)
      signals := ?signals
      count := ?count
      defined := ?defined
      distinct := ?distinct
      context := by rw [left, List.getLastD_concat]
      position := by rw [takes.position, h.position, flat, List.length_append]
      going := takes.going }⟩
  case signals => rw [h.signals, takes.signals, flat, List.map_append, List.append_assoc]
  case count => rw [left, h.count, List.length_append, List.length_singleton]
  case defined =>
    rw [left, h.count, h.defined, definitions_concat, List.reverse_append]
    cases i.defined? <;> rfl
  case distinct =>
    have longer := takes.nodup_names h.nodup_names
    rw [takes.names, h.names] at longer
    rw [← List.nodup_reverse, definedLabels_concat, List.reverse_append]
    cases defined : i.defined? <;> simpa [defined] using longer

/-- **Calls that return instructions** add them to what is remembered. -/
theorem Remembers.returns {more : List Instruction} (h : d.Remembers source is words)
    (returns : d.Returns more d') :
    ∃ words', d'.Remembers source (is ++ more) (words ++ words') := by
  induction returns generalizing is words with
  | refl d => exact ⟨[], by simpa using h⟩
  | head next later ih =>
    obtain ⟨word, remembers⟩ := h.next next
    obtain ⟨words', all⟩ := ih remembers
    refine ⟨word :: words', ?_⟩
    rwa [List.append_assoc, List.append_assoc] at all

/-- What is remembered of all instructions of a source. -/
theorem exists_remembers (returns : (ofInput source).Returns is d) :
    ∃ words, d.Remembers source is words :=
  (remembers_ofInput source).returns returns

/-- Calls that return instructions come one after another. -/
theorem returns_of_items {n : Nat} (returned : d.items n = is.map .instruction) :
    d.Returns is (d.after n) := by
  induction n generalizing d is with
  | zero =>
    obtain rfl : is = [] := List.map_eq_nil_iff.mp returned.symm
    exact .refl d
  | succ n ih =>
    obtain ⟨i, later, rfl, first, rest⟩ := List.map_eq_cons_iff.mp returned.symm
    exact .head (Prod.ext first.symm rfl) (ih rest.symm)

/-! ## What is remembered -/

/-- The table leads from each label to the instruction that defines it. -/
theorem Remembers.lookup (h : d.Remembers source is words) (name : Label) (place : Nat) :
    d.defined.lookup name = some place ↔ is[place]? = some (.label .define name) := by
  rw [lookup_eq_some_iff_mem h.nodup_names, h.defined, List.mem_reverse, mem_definitions]

/-- The table has an entry for each definition. -/
theorem Remembers.length_defined (h : d.Remembers source is words) :
    d.defined.length = is.countP fun i => i.defined?.isSome := by
  rw [h.defined, List.length_reverse, ← List.length_map, map_fst_definitions, definedLabels,
    List.length_filterMap_eq_countP]

end Decoder

/-- **The counts of a decoded source** are those of its labels and of the significant bytes that it
delivers, and that are all of them unless it pauses. -/
theorem counts_of_decode {source : Input} {decoding : Decoding}
    (decoded : decode source = .ok decoding) :
    decoding.labels = (decoding.instructions.countP fun i => i.defined?.isSome) ∧
      decoding.tokens = (significant source.delivered).length ∧
      (.pause ∉ source.pending → source.delivered = source.bytes) := by
  rcases drained : (Decoder.ofInput source).drain #[] with ⟨e | read, d'⟩
  · simp [decode, drained] at decoded
  · obtain rfl : ⟨read.toList, d'.defined.length, d'.reader.position⟩ = decoding := by
      simpa [decode, drained] using decoded
    obtain ⟨is, d, returns, ⟨finished, same⟩ | ⟨e, -, failed⟩⟩ := Decoder.returns_of_drain drained
    · obtain rfl : read = is.toArray := by simpa using same
      obtain ⟨words, remembers⟩ := Decoder.exists_remembers returns
      obtain ⟨ends, table, -⟩ := Decoder.ends_of_next_finished remembers.going finished
      obtain ⟨before, begun⟩ := returns.hasRead rfl (Reader.hasRead_new source)
      have counted := Decoder.next_hasRead begun remembers.going
      rw [finished] at counted
      refine ⟨by rw [table, remembers.length_defined], counted.position, fun no_pause => ?_⟩
      have signals := remembers.signals
      have no_pause' : .pause ∉ d.signals := fun pause =>
        no_pause (Input.pause_of_signals (signals ▸ List.mem_append_right _ pause))
      rw [ends.eq_nil no_pause', List.append_nil] at signals
      exact (Input.reliable_of_signals signals).delivered_eq
    · cases failed

/-- The line that is reported about a decoded source. -/
theorem Event.line_decoded (instructions labels tokens : Nat) :
    (decoded instructions labels tokens).line =
      "DEBUG wspace::parser: " ++ ("decoded source instructions=" ++ toString instructions
        ++ " labels=" ++ toString labels ++ " tokens=" ++ toString tokens) := by
  have head : "DEBUG" ++ " " ++ "wspace::parser" ++ ": " = "DEBUG wspace::parser: " := by decide
  exact congrArg (· ++ (decoded instructions labels tokens).text) head

/-- **What a decoder remembers.**  Whatever a source delivers, when calls have returned some
instructions, they are counted, the table leads from each label to the index of its definition and
has no other entries, all labels consist of spaces and tabs, the context is the word of the last
instruction, and the position is the length of all words, each of which has three tokens or more.

So what is reported about a source that has been decoded are the numbers of its instructions, of its
label definitions and of the significant bytes that it delivers; they are those of the whole source,
unless it pauses and that is taken for its end. -/
theorem bookkeeping_of_calls (source : Input) :
    (∀ (n : Nat) (is : List Instruction), (Decoder.ofInput source).items n = is.map .instruction →
      let d := (Decoder.ofInput source).after n
      d.count = is.length ∧
      (∀ name place,
        d.defined.lookup name = some place ↔ is[place]? = some (.label .define name)) ∧
      d.defined.length = (is.countP fun i => i.defined?.isSome) ∧
      (∀ i ∈ is, i.Blank) ∧
      ∃ words, List.Forall₂ IsSpelling is words ∧
        source.signals = words.flatten.map Signal.token ++ d.signals ∧
        d.context.toList = words.getLastD [] ∧
        d.reader.position = (words.map List.length).sum ∧
        ∀ word ∈ words, 3 ≤ word.length) ∧
    ∀ decoding, decode source = .ok decoding →
      let instructions := decoding.instructions.length
      let labels := decoding.instructions.countP fun i => i.defined?.isSome
      let tokens := (significant source.delivered).length
      (.pause ∉ source.pending → source.delivered = source.bytes) ∧
      decoding.events = [.decoded instructions labels tokens] ∧
      decoding.events.map Event.line =
        ["DEBUG wspace::parser: " ++ ("decoded source instructions=" ++ toString instructions
          ++ " labels=" ++ toString labels ++ " tokens=" ++ toString tokens)] ∧
      (disassemble source).events = decoding.events ∧
      decoding.events <+: (load source).events := by
  refine ⟨fun n is returned => ?_, fun decoding decoded => ?_⟩
  · obtain ⟨words, remembers⟩ := Decoder.exists_remembers (Decoder.returns_of_items returned)
    have spelled := remembers.spelled
    refine ⟨remembers.count, remembers.lookup, remembers.length_defined, blank_of_spelled spelled,
      words, spelled, remembers.signals, remembers.context, ?_, ?_⟩
    · rw [remembers.position, List.length_flatten]
    · intro word member
      obtain ⟨k, bound, rfl⟩ := List.getElem_of_mem member
      exact (spelled.get (spelled.length_eq ▸ bound) bound).three_le_length
  · obtain ⟨labels, tokens, whole⟩ := counts_of_decode decoded
    rw [← labels, ← tokens]
    refine ⟨whole, rfl, congrArg ([·]) (Event.line_decoded _ _ _),
      by simp only [disassemble, decoded], ?_⟩
    simp only [load, decoded]
    cases link decoding.instructions with
    | error e => exact List.prefix_refl _
    | ok linking => exact List.prefix_append _ _

/-- A label behind a push is found at its index, though the source fails later; without the failure,
both are reported. -/
theorem bookkeeping_of_calls_label :
    let word : List UInt8 := [0x20, 0x20, 0x78, 0x20, 0x0A]
    let failing : Input := ⟨[], [.data word, .interruption,
      .data [0x0A, 0x20, 0x20, 0x09, 0x0A, 0x09], .failure "gone"]⟩
    let whole : Input := .ofBytes (word ++ [0x0A, 0x20, 0x20, 0x09, 0x0A])
    ((Decoder.ofInput failing).after 2).count = 2 ∧
    ((Decoder.ofInput failing).after 2).defined.lookup (.ofTokens [.tab]) = some 1 ∧
    whole.delivered = whole.bytes ∧
    (disassemble whole).events.map Event.line =
      ["DEBUG wspace::parser: decoded source instructions=2 labels=1 tokens=9"] := by
  intro word failing whole
  have returned : (Decoder.ofInput failing).items 2 =
      [.number .push 0, .label .define (.ofTokens [.tab])].map .instruction := by decide +kernel
  have decoded : decode whole =
      .ok ⟨[.number .push 0, .label .define (.ofTokens [.tab])], 1, 9⟩ := by decide +kernel
  obtain ⟨count, lookup, -⟩ := (bookkeeping_of_calls failing).1 2 _ returned
  obtain ⟨all, -, line, listed, -⟩ := (bookkeeping_of_calls whole).2 _ decoded
  refine ⟨count, (lookup _ 1).mpr rfl, all (by decide), ?_⟩
  rw [listed, line]
  decide +kernel

end Whitespace
