import Mathlib.Data.List.Forall2
import Mathlib.Data.List.Nodup
import Whitespace.Decoding
import Whitespace.Proofs.Grammar

/-!
# Decoding accepts exactly the grammar

A reliable source is decoded to some instructions exactly if its significant bytes are spellings of
these instructions, one after another, and no label is defined twice (`decode_eq_ok_iff`).

The proof goes instruction by instruction.  `Decoder.Takes` is what a decoder has done when it
returns an instruction; it does so if and only if its signals begin with a spelling and the label,
if one is defined, is new (`Decoder.takes_of_next`, `Decoder.exists_takes`).  A decoder repeats this
(`Decoder.Returns`): it goes along given spellings (`Decoder.exists_returns`), and what it returns
has been spelled (`Decoder.Returns.words`).
-/

namespace Whitespace

/-- The labels that some instructions define, in order. -/
def definedLabels (is : List Instruction) : List Label :=
  is.filterMap Instruction.defined?

/-- One instruction more, as a decoder lists the labels, the last first. -/
theorem reverse_definedLabels_cons (i : Instruction) (is : List Instruction) (names : List Label) :
    (definedLabels (i :: is)).reverse ++ names =
      (definedLabels is).reverse ++ (i.defined?.toList ++ names) := by
  cases defined : i.defined? with
  | none => simp [definedLabels, defined]
  | some name => simp [definedLabels, defined]

/-- One instruction more at the end. -/
theorem definedLabels_concat (is : List Instruction) (i : Instruction) :
    definedLabels (is ++ [i]) = definedLabels is ++ i.defined?.toList := by
  cases defined : i.defined? <;> simp [definedLabels, defined]

namespace Decoder

/-- The signals that a decoder has before it. -/
def signals (d : Decoder) : List Signal :=
  d.reader.signals

/-- The labels that a decoder has met, the last first. -/
def names (d : Decoder) : List Label :=
  d.defined.map Prod.fst

@[simp] theorem names_ofInput (source : Input) : (ofInput source).names = [] := rfl

@[simp] theorem signals_ofInput (source : Input) : (ofInput source).signals = source.signals := rfl

/-- What a decoder has done when it returns an instruction. -/
structure Takes (d : Decoder) (i : Instruction) (word : List Token) (d' : Decoder) : Prop where
  spelled : Instruction.IsSpelling i word
  signals : d.signals = word.map Signal.token ++ d'.signals
  fresh : ∀ name, i.defined? = some name → name ∉ d.names
  names : d'.names = i.defined?.toList ++ d.names
  position : d'.reader.position = d.reader.position + word.length
  going : d'.done = false

variable {d d' : Decoder} {i : Instruction}

/-- Instructions that are taken up define no label twice. -/
theorem Takes.nodup_names {word : List Token} (takes : d.Takes i word d')
    (distinct : d.names.Nodup) : d'.names.Nodup := by
  rw [takes.names]
  cases defined : i.defined? with
  | none => exact distinct
  | some name => exact List.nodup_cons.mpr ⟨takes.fresh name defined, distinct⟩

/-- A label has been met if it is in the table. -/
theorem lookup_isSome {name : Label} : (d.defined.lookup name).isSome ↔ name ∈ d.names := by
  rw [List.lookup_isSome_iff, names, List.mem_map]
  simp only [beq_iff_eq, eq_comm (a := name)]

/-- The next instruction is read from the signals alone. -/
theorem next_eq (going : d.done = false) :
    let reading := Progress.start.readFrom d.signals
    ∃ r, r.signals = reading.rest ∧ r.position = d.reader.position + reading.read.length ∧
      let d' : Decoder := { d with reader := r, context := reading.read.toArray }
      d.next = match reading.outcome with
        | .finished => (.finished, { d' with done := true })
        | .failed cause => d'.fail cause
        | .complete i => d'.accept i := by
  intro reading
  obtain ⟨outcome, rest, position, context⟩ := finish_spec .start d.reader #[]
  refine ⟨(finish .start d.reader #[]).2.1, rest, position, ?_⟩
  rw [Array.empty_append] at context
  rw [next, if_neg (by simp [going])]
  simp only [outcome, context]
  rfl

/-- A decoder whose signals begin with a spelling reads it and takes up the instruction. -/
theorem next_of_spelling {word : List Token} {rest : List Signal} (going : d.done = false)
    (spelled : Instruction.IsSpelling i word)
    (signals : d.signals = word.map Signal.token ++ rest) :
    ∃ r, r.signals = rest ∧ r.position = d.reader.position + word.length ∧
      d.next = ({ d with reader := r, context := word.toArray } : Decoder).accept i := by
  have read := next_eq going
  rwa [signals, Progress.readFrom_spelling rest spelled] at read

/-- A label that has not been met is taken up, with the index of the instruction. -/
theorem accept_of_fresh (fresh : ∀ name, i.defined? = some name → name ∉ d.names) :
    d.accept i = (.instruction i,
      { d with
        defined := (i.defined?.map (·, d.count)).toList ++ d.defined
        count := d.count + 1 }) := by
  rw [accept]
  cases defined : i.defined? with
  | none => rfl
  | some name =>
    have unknown : ¬(d.defined.lookup name).isSome := fun known =>
      fresh name defined (lookup_isSome.mp known)
    simp only [unknown]
    rfl

/-- A label that has been met is an error. -/
theorem accept_of_known {name : Label} (defined : i.defined? = some name) (known : name ∈ d.names) :
    d.accept i = d.fail (.duplicateLabel name) := by
  simp only [accept, defined, lookup_isSome.mpr known, if_true]

/-- A decoder whose signals begin with a spelling returns the instruction, if it may. -/
theorem exists_takes {word : List Token} {rest : List Signal} (going : d.done = false)
    (spelled : Instruction.IsSpelling i word) (signals : d.signals = word.map Signal.token ++ rest)
    (fresh : ∀ name, i.defined? = some name → name ∉ d.names) :
    ∃ d', d.next = (.instruction i, d') ∧ d.Takes i word d' ∧ d'.signals = rest := by
  obtain ⟨r, left, position, next⟩ := next_of_spelling going spelled signals
  have accepted := accept_of_fresh (d := { d with reader := r, context := word.toArray }) fresh
  rw [accepted] at next
  refine ⟨_, next, ⟨spelled, ?_, fresh, ?_, position, going⟩, left⟩
  · rw [signals, ← left]
    rfl
  · cases i.defined? <;> rfl

/-- A decoder whose signals begin with the spelling of a label it has met returns an error, with
what it has read of the source and of the instruction. -/
theorem next_of_known {word : List Token} {rest : List Signal} {name : Label}
    (going : d.done = false) (spelled : Instruction.IsSpelling i word)
    (signals : d.signals = word.map Signal.token ++ rest) (defined : i.defined? = some name)
    (known : name ∈ d.names) :
    ∃ e d', d.next = (.error e, d') ∧ e.cause = .duplicateLabel name ∧
      e.position = d.reader.position + word.length ∧ e.context = word := by
  obtain ⟨r, -, position, next⟩ := next_of_spelling going spelled signals
  have known : name ∈ ({ d with reader := r, context := word.toArray } : Decoder).names := known
  rw [accept_of_known defined known] at next
  exact ⟨_, _, next, rfl, position, rfl⟩

/-- What a decoder finds next: an instruction, the end of its signals, or an error. -/
theorem next_cases (going : d.done = false) :
    (∃ i word d', d.next = (.instruction i, d') ∧ d.Takes i word d') ∨
      (∃ d', d.next = (.finished, d') ∧ Signal.Ends d.signals d'.signals ∧
        d'.defined = d.defined ∧ d'.reader.position = d.reader.position) ∨
      ∃ e d', d.next = (.error e, d') := by
  obtain ⟨r, left, position, next⟩ := next_eq going
  rcases reading : Progress.start.readFrom d.signals with ⟨outcome, word, rest⟩
  rw [reading] at left position next
  cases outcome with
  | complete i =>
    obtain ⟨spelled, signals⟩ := Progress.readFrom_start_eq_complete.mp reading
    by_cases fresh : ∀ name, i.defined? = some name → name ∉ d.names
    · obtain ⟨d', taken, takes, -⟩ := exists_takes going spelled signals fresh
      exact .inl ⟨i, word, d', taken, takes⟩
    · push Not at fresh
      obtain ⟨name, defined, known⟩ := fresh
      obtain ⟨e, d', failed, -⟩ := next_of_known going spelled signals defined known
      exact .inr (.inr ⟨e, d', failed⟩)
  | finished =>
    obtain ⟨-, rfl, ends⟩ := Progress.ends_of_readFrom_finished reading
    obtain rfl : r.signals = rest := left
    exact .inr (.inl ⟨_, next, ends, rfl, position⟩)
  | failed cause => exact .inr (.inr ⟨_, _, next⟩)

/-- A decoder that returns an instruction has read one of its spellings. -/
theorem takes_of_next (going : d.done = false) (h : d.next = (.instruction i, d')) :
    ∃ word, d.Takes i word d' := by
  obtain ⟨j, word, d'', next, takes⟩ | ⟨d'', next, -⟩ | ⟨e, d'', next⟩ := next_cases going
  · rw [next] at h
    cases h
    exact ⟨word, takes⟩
  · exact nomatch next.symm.trans h
  · exact nomatch next.symm.trans h

/-- A decoder that returns nothing more has come to the end of its signals, or to a pause, and
remembers what it has read. -/
theorem ends_of_next_finished (going : d.done = false) (h : d.next = (.finished, d')) :
    Signal.Ends d.signals d'.signals ∧ d'.defined = d.defined ∧
      d'.reader.position = d.reader.position := by
  obtain ⟨j, word, d'', next, -⟩ | ⟨d'', next, ended⟩ | ⟨e, d'', next⟩ := next_cases going
  · exact nomatch next.symm.trans h
  · obtain rfl : d'' = d' := congrArg Prod.snd (next.symm.trans h)
    exact ended
  · exact nomatch next.symm.trans h

/-- At the end of its signals, or at a pause, a decoder returns nothing more. -/
theorem next_of_ends {rest : List Signal} (going : d.done = false)
    (ends : Signal.Ends d.signals rest) : ∃ d', d.next = (.finished, d') := by
  obtain ⟨r, -, -, next⟩ := next_eq going
  rw [Progress.readFrom_ends _ ends] at next
  exact ⟨_, next⟩

/-! ## Returning one after another, and draining -/

/-- A decoder returns some instructions, one after another. -/
inductive Returns : Decoder → List Instruction → Decoder → Prop where
  | refl (d : Decoder) : Returns d [] d
  | head {d d' d'' : Decoder} {i : Instruction} {is : List Instruction}
      (next : d.next = (.instruction i, d')) (later : Returns d' is d'') : Returns d (i :: is) d''

/-- **A decoder goes along spellings** that come one after another, if no label is defined twice. -/
theorem exists_returns {is : List Instruction} {words : List (List Token)} {rest : List Signal}
    (spelled : List.Forall₂ Instruction.IsSpelling is words) (going : d.done = false)
    (signals : d.signals = words.flatten.map Signal.token ++ rest)
    (distinct : ((definedLabels is).reverse ++ d.names).Nodup) :
    ∃ d' : Decoder, d.Returns is d' ∧ d'.done = false ∧ d'.signals = rest ∧
      d'.names = (definedLabels is).reverse ++ d.names ∧
      d'.reader.position = d.reader.position + words.flatten.length := by
  induction spelled generalizing d with
  | nil => exact ⟨d, .refl d, going, signals, rfl, rfl⟩
  | @cons i word is words first later ih =>
    rw [reverse_definedLabels_cons] at distinct ⊢
    have fresh : ∀ name, i.defined? = some name → name ∉ d.names := by
      intro name defined
      have new := (List.nodup_append.mp distinct).2.1
      rw [defined] at new
      exact (List.nodup_cons.mp new).1
    rw [List.flatten_cons, List.map_append, List.append_assoc] at signals
    obtain ⟨d', next, takes, left⟩ := exists_takes going first signals fresh
    rw [← takes.names] at distinct ⊢
    obtain ⟨d'', returns, going', left', names, position⟩ := ih takes.going left distinct
    refine ⟨d'', .head next returns, going', left', names, ?_⟩
    rw [position, takes.position, List.flatten_cons, List.length_append]
    omega

/-- **Instructions that are returned have been spelled**, with no label twice. -/
theorem Returns.words {is : List Instruction} (h : d.Returns is d') (going : d.done = false)
    (distinct : d.names.Nodup) :
    ∃ words, List.Forall₂ Instruction.IsSpelling is words ∧
      d.signals = words.flatten.map Signal.token ++ d'.signals ∧
      d'.names = (definedLabels is).reverse ++ d.names ∧ d'.names.Nodup ∧
      d'.reader.position = d.reader.position + words.flatten.length ∧ d'.done = false := by
  induction h with
  | refl d => exact ⟨[], .nil, rfl, rfl, distinct, rfl, going⟩
  | head next later ih =>
    obtain ⟨word, takes⟩ := takes_of_next going next
    obtain ⟨words, spelled, signals, names, distinct', position, going'⟩ :=
      ih takes.going (takes.nodup_names distinct)
    refine ⟨word :: words, .cons takes.spelled spelled, ?_, ?_, distinct', ?_, going'⟩
    · rw [takes.signals, signals, List.flatten_cons, List.map_append, List.append_assoc]
    · rw [reverse_definedLabels_cons, ← takes.names, names]
    · rw [position, takes.position, List.flatten_cons, List.length_append]
      omega

/-- Draining repeats what a decoder does next. -/
theorem drain_eq (d : Decoder) (read : Array Instruction) :
    d.drain read =
      match d.next with
      | (.finished, d') => (.ok read, d')
      | (.error e, d') => (.error e, d')
      | (.instruction i, d') => d'.drain (read.push i) := by
  rw [drain]
  split <;> next next => rw [next]

/-- Draining goes along what is returned. -/
theorem Returns.drain {is : List Instruction} (h : d.Returns is d') (read : Array Instruction) :
    d.drain read = d'.drain (read ++ is.toArray) := by
  induction h generalizing read with
  | refl d => simp
  | head next later ih =>
    rw [drain_eq, next]
    dsimp only
    rw [ih]
    simp

/-- Draining ends where a decoder returns no instruction. -/
theorem returns_of_drain {read : Array Instruction}
    {result : Except DecodeError (Array Instruction)} (h : d.drain read = (result, d')) :
    ∃ is d₁, d.Returns is d₁ ∧
      (d₁.next = (.finished, d') ∧ result = .ok (read ++ is.toArray) ∨
        ∃ e, d₁.next = (.error e, d') ∧ result = .error e) := by
  fun_induction drain d read with
  | case1 d read d'' next =>
    cases h
    exact ⟨[], d, .refl d, .inl ⟨next, by simp⟩⟩
  | case2 d read e d'' next =>
    cases h
    exact ⟨[], d, .refl d, .inr ⟨e, next, rfl⟩⟩
  | case3 d read i d'' next ih =>
    obtain ⟨is, d₁, returns, ended⟩ := ih h
    refine ⟨i :: is, d₁, .head next returns, ended.imp_left fun finished => ?_⟩
    simpa using finished

end Decoder

namespace Instruction

theorem IsSpelling.ne_nil {i : Instruction} {word : List Token} (spelled : IsSpelling i word) :
    word ≠ [] := by
  rintro rfl
  have nothing := Progress.readFrom_spelling [] spelled
  exact nomatch nothing

/-- **Tokens can be divided into spellings in one way only.** -/
theorem spellings_unique {is is' : List Instruction} {words words' : List (List Token)}
    (h : List.Forall₂ IsSpelling is words) (h' : List.Forall₂ IsSpelling is' words')
    (same : words.flatten = words'.flatten) : is = is' ∧ words = words' := by
  induction h generalizing is' words' with
  | nil =>
    cases h' with
    | nil => exact ⟨rfl, rfl⟩
    | cons first later =>
      have empty := List.append_eq_nil_iff.mp same.symm
      exact absurd empty.1 first.ne_nil
  | cons first later ih =>
    cases h' with
    | nil =>
      have empty := List.append_eq_nil_iff.mp same
      exact absurd empty.1 first.ne_nil
    | cons first' later' =>
      obtain ⟨rfl, rfl, more⟩ := first.unique first' same
      obtain ⟨rfl, rfl⟩ := ih later' more
      exact ⟨rfl, rfl⟩

end Instruction

/-! ## Whole sources -/

variable {source : Input} {is : List Instruction} {words : List (List Token)}

/-- Decoding a source is draining a decoder. -/
theorem decode_map_eq_ok :
    (decode source).map Decoding.instructions = .ok is ↔
      ∃ d, (Decoder.ofInput source).drain #[] = (.ok is.toArray, d) := by
  rcases drained : (Decoder.ofInput source).drain #[] with ⟨e | read, d⟩
  · simp [decode, drained, Except.map]
  · rw [decode, drained]
    simp only [Except.map, Except.ok.injEq, Prod.mk.injEq, exists_eq_right']
    exact ⟨fun same => by rw [← same], fun same => by rw [same]⟩

/-- Decoding a source fails where draining a decoder does. -/
theorem decode_eq_error {e : DecodeError} :
    decode source = .error e ↔ ∃ d, (Decoder.ofInput source).drain #[] = (.error e, d) := by
  rcases drained : (Decoder.ofInput source).drain #[] with ⟨e' | read, d⟩
  · simp [decode, drained]
  · simp [decode, drained]

/-- A new decoder goes along spellings with which its source begins. -/
theorem drain_ofInput {more : List Token} (reliable : source.Reliable)
    (spelled : List.Forall₂ Instruction.IsSpelling is words)
    (flat : significant source.bytes = words.flatten ++ more)
    (distinct : (definedLabels is).Nodup) :
    ∃ d : Decoder, (Decoder.ofInput source).drain #[] = d.drain is.toArray ∧ d.done = false ∧
      d.signals = more.map Signal.token ∧ d.names = (definedLabels is).reverse ∧
      d.reader.position = words.flatten.length := by
  have signals : (Decoder.ofInput source).signals =
      words.flatten.map Signal.token ++ more.map Signal.token := by
    rw [← List.map_append, ← flat]
    exact reliable.signals_eq
  have distinct : ((definedLabels is).reverse ++ (Decoder.ofInput source).names).Nodup := by
    rwa [Decoder.names_ofInput, List.append_nil, List.nodup_reverse]
  obtain ⟨d, returns, going, left, names, position⟩ :=
    Decoder.exists_returns spelled rfl signals distinct
  rw [Decoder.names_ofInput, List.append_nil] at names
  have drained := returns.drain #[]
  rw [Array.empty_append] at drained
  exact ⟨d, drained, going, left, names, by simpa [Decoder.ofInput] using position⟩

/-- Spellings are decoded, if they define no label twice. -/
theorem decode_of_words (reliable : source.Reliable)
    (spelled : List.Forall₂ Instruction.IsSpelling is words)
    (flat : words.flatten = significant source.bytes) (distinct : (definedLabels is).Nodup) :
    (decode source).map Decoding.instructions = .ok is := by
  have flat : significant source.bytes = words.flatten ++ [] := by rw [List.append_nil, flat]
  obtain ⟨d, drained, going, none_left, -⟩ := drain_ofInput reliable spelled flat distinct
  have ends : Signal.Ends d.signals [] := by
    rw [none_left]
    exact .finished
  obtain ⟨d', finished⟩ := Decoder.next_of_ends going ends
  rw [d.drain_eq, finished] at drained
  exact decode_map_eq_ok.mpr ⟨d', drained⟩

/-- Decoding a source is returning its instructions, up to the end. -/
theorem returns_of_decode (decoded : (decode source).map Decoding.instructions = .ok is) :
    ∃ d d' : Decoder, (Decoder.ofInput source).Returns is d ∧ d.next = (.finished, d') := by
  obtain ⟨d', drained⟩ := decode_map_eq_ok.mp decoded
  obtain ⟨is', d, returns, ⟨finished, same⟩ | ⟨e, -, failed⟩⟩ := Decoder.returns_of_drain drained
  · obtain rfl : is = is' := by simpa using same
    exact ⟨d, d', returns, finished⟩
  · cases failed

/-- What is decoded defines no label twice. -/
theorem distinct_of_decode (decoded : (decode source).map Decoding.instructions = .ok is) :
    (definedLabels is).Nodup := by
  obtain ⟨d, d', returns, -⟩ := returns_of_decode decoded
  obtain ⟨-, -, -, names, distinct, -, -⟩ := returns.words rfl List.nodup_nil
  rwa [names, Decoder.names_ofInput, List.append_nil, List.nodup_reverse] at distinct

/-- What is decoded has been spelled, and defines no label twice. -/
theorem words_of_decode (reliable : source.Reliable)
    (decoded : (decode source).map Decoding.instructions = .ok is) :
    (∃ words, List.Forall₂ Instruction.IsSpelling is words ∧
      words.flatten = significant source.bytes) ∧ (definedLabels is).Nodup := by
  obtain ⟨d, d', returns, finished⟩ := returns_of_decode decoded
  obtain ⟨words, spelled, found, -, -, -, going⟩ := returns.words rfl List.nodup_nil
  obtain ⟨ends, -⟩ := Decoder.ends_of_next_finished going finished
  rw [Decoder.signals_ofInput, reliable.signals_eq] at found
  have none_left : d.signals = [] := ends.eq_nil fun pause => by
    obtain ⟨t, -, wrong⟩ := List.mem_map.mp (found ▸ List.mem_append_right _ pause)
    cases wrong
  rw [none_left, List.append_nil] at found
  have flat := List.map_injective_iff.mpr (fun _ _ => Signal.token.inj) found
  exact ⟨⟨words, spelled, flat.symm⟩, distinct_of_decode decoded⟩

/-- The first definition of a label that was defined before is an error. -/
theorem decode_of_repeated {i : Instruction} {word more : List Token} {name : Label}
    (reliable : source.Reliable) (spelled : List.Forall₂ Instruction.IsSpelling is words)
    (distinct : (definedLabels is).Nodup) (last : Instruction.IsSpelling i word)
    (defined : i.defined? = some name) (known : name ∈ definedLabels is)
    (flat : significant source.bytes = words.flatten ++ (word ++ more)) :
    ∃ e, decode source = .error e ∧ e.cause = .duplicateLabel name ∧
      e.position = words.flatten.length + word.length ∧ e.context = word := by
  obtain ⟨d, drained, going, left, names, position⟩ :=
    drain_ofInput reliable spelled flat distinct
  have known : name ∈ d.names := by
    rw [names]
    exact List.mem_reverse.mpr known
  rw [List.map_append] at left
  obtain ⟨e, d', failed, cause, position', context⟩ :=
    Decoder.next_of_known going last left defined known
  rw [d.drain_eq, failed] at drained
  exact ⟨e, decode_eq_error.mpr ⟨d', drained⟩, cause, by rw [position', position], context⟩

/-- **Decoding accepts exactly the grammar.**  A reliable source is decoded to some
instructions if and only if its significant bytes are spellings of them, one after another, and no
two of them define the same label; and there is only one way to divide the bytes into spellings. -/
theorem decode_eq_ok_iff (reliable : source.Reliable) :
    (∀ is, (decode source).map Decoding.instructions = .ok is ↔
      (∃ words, List.Forall₂ Instruction.IsSpelling is words ∧
        words.flatten = significant source.bytes) ∧ (definedLabels is).Nodup) ∧
    ∀ is is' words words',
      List.Forall₂ Instruction.IsSpelling is words → words.flatten = significant source.bytes →
      List.Forall₂ Instruction.IsSpelling is' words' → words'.flatten = significant source.bytes →
        is = is' ∧ words = words' := by
  refine ⟨fun is => ⟨words_of_decode reliable, ?_⟩, ?_⟩
  · rintro ⟨⟨words, spelled, flat⟩, distinct⟩
    exact decode_of_words reliable spelled flat distinct
  · intro is is' words words' h flat h' flat'
    exact Instruction.spellings_unique h h' (flat.trans flat'.symm)

/-- A push without digits, with a comment in its opcode, that is delivered in two parts. -/
theorem decode_eq_ok_iff_push :
    (decode ⟨[], [.data [0x20, 0x78], .interruption, .data [0x20, 0x09, 0x0A]]⟩).map
      Decoding.instructions = .ok [.number .push 0] := by
  have reliable : Input.Reliable
      ⟨[], [.data [0x20, 0x78], .interruption, .data [0x20, 0x09, 0x0A]]⟩ := by
    simp [Input.Reliable]
  have spelled : Instruction.IsSpelling (.number .push 0) [.space, .space, .tab, .lineFeed] :=
    .number .push true []
  exact ((decode_eq_ok_iff reliable).1 _).mpr
    ⟨⟨[[.space, .space, .tab, .lineFeed]], .cons spelled .nil, rfl⟩, List.nodup_nil⟩

end Whitespace
