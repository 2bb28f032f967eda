import Whitespace.Proofs.Acceptance
import Whitespace.Proofs.Offsets
import Whitespace.Proofs.Viability

/-!
# Decoding errors are precise, and as early as possible

A reliable source is given up in two ways.  Either it ends within an instruction; then
something can be added to it that makes it a program.  Or there is a token with which no program
goes on, whatever follows, while the source before that token could still have become one.  What the
error tells — how many bytes and tokens were read, and the tokens of the instruction — is exact in
both cases (`decode_error_precise`).

## Main definitions

* `Decoder.CutOff word cause` — the tokens end within an instruction.
* `Decoder.Rejected names word cause` — no program goes on with these tokens, if these labels have
  been met before.
* `Completable bytes` — something can be added to the bytes that makes them a program.
* `DecodeError.AtToken`, `DecodeError.AtEnd` — what an error means that is met at a token, or at the
  end of the source.
-/

namespace Whitespace

open Instruction (IsSpelling)

namespace Decoder

/-! ## Giving up an instruction -/

/-- The tokens end within an instruction. -/
def CutOff (word : List Token) (cause : DecodeError.Cause) : Prop :=
  ∃ q, Progress.start.Leads word q ∧ q.unfinished? = some cause

/-- An instruction is given up at its last token: that is malformed, or a label that has been met
before is now defined again. -/
inductive Rejected (names : List Label) : List Token → DecodeError.Cause → Prop where
  | malformed {front : List Token} {q : Progress} {t : Token} {cause : DecodeError.Cause}
      (leads : Progress.start.Leads front q) (fed : q.feed t = .malformed cause) :
      Rejected names (front ++ [t]) cause
  | repeated {i : Instruction} {word : List Token} {name : Label} (spelled : IsSpelling i word)
      (defined : i.defined? = some name) (known : name ∈ names) :
      Rejected names word (.duplicateLabel name)

variable {word : List Token} {cause : DecodeError.Cause} {names : List Label}

/-- What is cut off has begun. -/
theorem CutOff.ne_nil (h : CutOff word cause) : word ≠ [] := by
  rintro rfl
  obtain ⟨q, leads, unfinished⟩ := h
  cases leads
  cases unfinished

theorem CutOff.viable (h : CutOff word cause) (avoid : List Label) :
    Instruction.Viable avoid word := by
  obtain ⟨q, leads, -⟩ := h
  exact leads.viable avoid

/-- Why an instruction is cut off. -/
theorem CutOff.cases_cause (h : CutOff word cause) :
    (∃ family, cause = .incompleteOpcode family) ∨ ∃ operand, cause = .unterminated operand := by
  obtain ⟨q, -, unfinished⟩ := h
  exact Progress.cause_of_unfinished unfinished

/-- No lead begins another. -/
theorem lead_prefix_iff {f g : Family} {read : List Token} :
    f.lead <+: g.lead ++ read ↔ f = g := by
  constructor
  · intro begins
    cases f <;> cases g <;> first | rfl | exact absurd begins (by simp [Family.lead])
  · rintro rfl
    exact List.prefix_append _ _

/-- The family of an opcode that is cut off is told by its lead, unless that is not yet complete. -/
theorem CutOff.family {family : Option Family} (h : CutOff word (.incompleteOpcode family)) :
    (family = none ↔ word = [.tab]) ∧ ∀ f, family = some f ↔ f.lead <+: word := by
  obtain ⟨q, leads, unfinished⟩ := h
  have opened := leads.opened (.inl rfl)
  have holds : q.Holds word := leads.holds (.lead [])
  cases holds with
  | lead =>
    obtain rfl | rfl := opened
    · cases unfinished
    · cases unfinished
      refine ⟨by simp, fun f => ?_⟩
      cases f <;> simp [Family.lead]
  | command g read =>
    cases unfinished
    refine ⟨?_, fun f => ?_⟩
    · cases g <;> simp [Family.lead]
    · rw [lead_prefix_iff, Option.some.injEq, eq_comm]
  | sign op => cases unfinished
  | digits op negative bits => cases unfinished
  | name op read closed => cases unfinished

/-- Without its last token, what is rejected could still become an instruction. -/
theorem Rejected.viable (h : Rejected names word cause) (avoid : List Label) :
    ∃ front t, word = front ++ [t] ∧ Instruction.Viable avoid front := by
  cases h with
  | @malformed front q t cause leads fed => exact ⟨front, t, rfl, leads.viable avoid⟩
  | repeated spelled defined known =>
    obtain rfl := Instruction.defined?_eq_some_iff.mp defined
    cases spelled with
    | label op read closed =>
      exact ⟨_, .lineFeed, (List.append_assoc _ _ _).symm, Instruction.viable_name .define closed⟩

/-- Why an instruction is rejected, and the token that the cause tells. -/
theorem Rejected.cases_cause (h : Rejected names word cause) :
    (∃ family found, cause = .unknownOpcode family found ∧ word.getLast? = some found) ∨
      (∃ found, cause = .invalidSign found ∧ word.getLast? = some found) ∨
      ∃ name, cause = .duplicateLabel name := by
  cases h with
  | @malformed front q t cause leads fed =>
    obtain ⟨family, rfl⟩ | rfl := Progress.cause_of_malformed fed
    · exact .inl ⟨family, t, rfl, List.getLast?_concat⟩
    · exact .inr (.inl ⟨t, rfl, List.getLast?_concat⟩)
  | @repeated i word name spelled defined known => exact .inr (.inr ⟨name, rfl⟩)

/-- What is rejected is rejected at its last token. -/
theorem Rejected.endsWithToken {source read : List UInt8} (h : Rejected names word cause)
    (shown : cause.Shows source read) : EndsWithToken read := by
  obtain ⟨family, found, rfl, -⟩ | ⟨found, rfl, -⟩ | ⟨name, rfl⟩ := h.cases_cause
  · exact shown
  · exact shown
  · exact shown

/-- What is cut off is cut off at the end. -/
theorem CutOff.eq_source {source read : List UInt8} (h : CutOff word cause)
    (shown : cause.Shows source read) : read = source := by
  obtain ⟨family, rfl⟩ | ⟨operand, rfl⟩ := h.cases_cause
  · exact shown
  · exact shown

variable {d d' : Decoder} {rest : List Signal}

/-- Where reading an instruction fails, a decoder returns the error. -/
theorem next_of_failed (going : d.done = false)
    (failed : Progress.start.readFrom d.signals = ⟨.failed cause, word, rest⟩) :
    ∃ offset d', d.next =
      (.error ⟨cause, d.reader.position + word.length, offset, word⟩, d') := by
  obtain ⟨r, -, position, next⟩ := next_eq going
  rw [failed] at position next
  refine ⟨r.offset, { d with reader := r, context := word.toArray, done := true }, ?_⟩
  rw [next, ← position]
  rfl

/-- **Whatever follows, a decoder returns an error** for tokens that are rejected. -/
theorem next_of_rejected (going : d.done = false) (h : Rejected d.names word cause)
    (signals : d.signals = word.map Signal.token ++ rest) :
    ∃ offset d', d.next =
      (.error ⟨cause, d.reader.position + word.length, offset, word⟩, d') := by
  cases h with
  | @malformed front q t cause leads fed =>
    have failed : Progress.start.readFrom d.signals = ⟨.failed cause, front ++ [t], rest⟩ := by
      rw [signals, List.map_append, List.append_assoc, leads.readFrom, List.map_singleton,
        List.singleton_append, Progress.readFrom_token, fed]
      rfl
    exact next_of_failed going failed
  | repeated spelled defined known =>
    obtain ⟨e, d', failed, cause, position, context⟩ :=
      next_of_known going spelled signals defined known
    refine ⟨e.offset, d', ?_⟩
    rw [failed, ← cause, ← position, ← context]

/-- **Why a decoder returns an error**, and what it tells of the tokens. -/
theorem error_of_next {tokens : List Token} {e : DecodeError} (going : d.done = false)
    (signals : d.signals = tokens.map Signal.token) (h : d.next = (.error e, d')) :
    e.position = d.reader.position + e.context.length ∧
      (CutOff e.context e.cause ∧ tokens = e.context ∨
        Rejected d.names e.context e.cause ∧ ∃ more, tokens = e.context ++ more) := by
  obtain ⟨r, -, position, next⟩ := next_eq going
  rw [signals, h] at next
  rw [signals] at position
  obtain ⟨q, leads, reading⟩ |
    ⟨front, t, more, q, rfl, leads, ⟨i, fed, reading⟩ | ⟨cause, fed, reading⟩⟩ :=
      Progress.start.readFrom_cases tokens
  · rw [reading] at next position
    cases unfinished : q.unfinished? with
    | none =>
      simp only [Progress.ending, unfinished] at next
      cases next
    | some cause =>
      simp only [Progress.ending, unfinished] at next
      cases next
      exact ⟨position, .inl ⟨⟨q, leads, unfinished⟩, rfl⟩⟩
  · -- The instruction is complete; so it is its label that is at fault.
    have spelled : IsSpelling i (front ++ [t]) := by
      have holds := (leads.holds (.lead [])).feed t
      rwa [fed] at holds
    have split : d.signals = (front ++ [t]).map Signal.token ++ more.map Signal.token := by
      rw [signals, ← List.map_append, List.append_cons]
    by_cases fresh : ∀ name, i.defined? = some name → name ∉ d.names
    · obtain ⟨d'', taken, -⟩ := exists_takes going spelled split fresh
      cases h.symm.trans taken
    · push Not at fresh
      obtain ⟨name, defined, known⟩ := fresh
      obtain ⟨e', d'', failed, cause, position, context⟩ :=
        next_of_known going spelled split defined known
      cases h.symm.trans failed
      rw [cause, context]
      exact ⟨position, .inr ⟨.repeated spelled defined known, more, List.append_cons _ _ _⟩⟩
  · rw [reading] at next position
    cases next
    exact ⟨position, .inr ⟨.malformed leads fed, more, List.append_cons _ _ _⟩⟩

/-- A decoder that returns instructions reads on. -/
theorem Returns.hasRead {is : List Instruction} {delivered read : List UInt8} (h : d.Returns is d')
    (going : d.done = false) (begun : d.reader.HasRead delivered read) :
    ∃ read', d'.reader.HasRead delivered read' := by
  induction h generalizing read with
  | refl d => exact ⟨read, begun⟩
  | head next later ih =>
    obtain ⟨word, takes⟩ := takes_of_next going next
    have told := next_hasRead begun going
    rw [next] at told
    obtain ⟨read', after⟩ := told
    exact ih takes.going after

end Decoder

/-! ## Programs that a source can become -/

/-- Something can be added to some bytes that makes them a program. -/
def Completable (bytes : List UInt8) : Prop :=
  ∃ more decoding, decode (.ofBytes (bytes ++ more)) = .ok decoding

variable {bytes : List UInt8} {is : List Instruction} {words : List (List Token)}
  {word : List Token}

/-- **Spellings, and behind them what an instruction begins with**, can become a program. -/
theorem completable_of_viable (spelled : List.Forall₂ IsSpelling is words)
    (distinct : (definedLabels is).Nodup)
    (viable : Instruction.Viable (definedLabels is) word)
    (flat : significant bytes = words.flatten ++ word) : Completable bytes := by
  obtain ⟨i, more, last, fresh⟩ := viable
  have all : List.Forall₂ IsSpelling (is ++ [i]) (words ++ [word ++ more]) :=
    List.rel_append spelled (.cons last .nil)
  have different : (definedLabels (is ++ [i])).Nodup := by
    rw [definedLabels_concat]
    cases defined : i.defined? with
    | none => simpa using distinct
    | some name =>
      rw [Option.toList_some, ← List.concat_eq_append, List.nodup_concat]
      exact ⟨fresh name defined, distinct⟩
  have tokens : (words ++ [word ++ more]).flatten =
      significant (Input.ofBytes (bytes ++ more.map Token.byte)).bytes := by
    simp [flat]
  have decoded := decode_of_words (Input.reliable_ofBytes _) all tokens different
  cases result : decode (.ofBytes (bytes ++ more.map Token.byte)) with
  | ok decoding => exact ⟨_, decoding, result⟩
  | error e =>
    rw [result] at decoded
    cases decoded

/-- **Spellings, and behind them what is rejected**, cannot become a program. -/
theorem not_completable_of_rejected {cause : DecodeError.Cause}
    (spelled : List.Forall₂ IsSpelling is words) (distinct : (definedLabels is).Nodup)
    (rejected : Decoder.Rejected (definedLabels is).reverse word cause)
    (flat : significant bytes = words.flatten ++ word) : ¬Completable bytes := by
  rintro ⟨more, decoding, decoded⟩
  have tokens : significant (Input.ofBytes (bytes ++ more)).bytes =
      words.flatten ++ (word ++ significant more) := by
    simp [flat]
  obtain ⟨d, drained, going, signals, names, -⟩ :=
    drain_ofInput (Input.reliable_ofBytes _) spelled tokens distinct
  rw [List.map_append] at signals
  obtain ⟨e, d', failed⟩ := Decoder.next_of_rejected going (names ▸ rejected) signals
  rw [d.drain_eq, failed] at drained
  cases decoded.symm.trans (decode_eq_error.mpr ⟨d', drained⟩)

/-! ## Errors -/

namespace DecodeError

/-- An error is met at a token: it is the `offset`-th byte of the source and its `position`-th
token; with it no program goes on, but without it one could have. -/
structure AtToken (bytes : List UInt8) (e : DecodeError) : Prop where
  token : ∃ front t rest, bytes = front ++ Token.byte t :: rest ∧ e.offset = front.length + 1 ∧
    e.position = (significant front).length + 1
  hopeless : ¬Completable (bytes.take e.offset)
  viable : Completable (bytes.take (e.offset - 1))

/-- An error is met at the end of the source, within an instruction; the source could go on. -/
structure AtEnd (bytes : List UInt8) (e : DecodeError) : Prop where
  offset : e.offset = bytes.length
  position : e.position = (significant bytes).length
  begun : e.context ≠ []
  viable : Completable bytes

/-- What has been read of a source when an error is returned behind some instructions. -/
structure MetBehind (bytes : List UInt8) (e : DecodeError) (is : List Instruction)
    (words : List (List Token)) (read : List UInt8) : Prop where
  spelled : List.Forall₂ IsSpelling is words
  distinct : (definedLabels is).Nodup
  begins : read <+: bytes
  offset : e.offset = read.length
  position : e.position = (significant read).length
  tokens : significant read = words.flatten ++ e.context
  shown : e.cause.Shows bytes read

variable {e : DecodeError} {read : List UInt8}

/-- What an error tells of the tokens is what stands there. -/
theorem MetBehind.take_position (h : e.MetBehind bytes is words read) :
    (significant bytes).take e.position = words.flatten ++ e.context ∧
      e.position ≤ (significant bytes).length := by
  obtain ⟨rest, rfl⟩ := h.begins
  rw [significant_append, h.position, List.take_left, List.length_append]
  exact ⟨h.tokens, Nat.le_add_right _ _⟩

/-- What is rejected is met at its last token. -/
theorem MetBehind.atToken (h : e.MetBehind bytes is words read)
    (rejected : Decoder.Rejected (definedLabels is).reverse e.context e.cause)
    (token : EndsWithToken read) : e.AtToken bytes := by
  obtain ⟨rest, rfl⟩ := h.begins
  obtain ⟨front, t, rfl⟩ := token
  obtain ⟨before, t', context, viable⟩ := rejected.viable (definedLabels is)
  have whole : ((front ++ [t.byte]) ++ rest).take e.offset = front ++ [t.byte] := by
    rw [h.offset, List.take_left]
  have shorter : ((front ++ [t.byte]) ++ rest).take (e.offset - 1) = front := by
    rw [h.offset, List.length_append, List.length_singleton, Nat.add_sub_cancel, List.append_assoc,
      List.take_left]
  have split : significant front = words.flatten ++ before := by
    have tokens := h.tokens
    rw [significant_concat_byte, context, ← List.append_assoc] at tokens
    exact (List.append_inj' tokens rfl).1
  refine ⟨⟨front, t, rest, by simp, ?_, ?_⟩, ?_, ?_⟩
  · rw [h.offset, List.length_append, List.length_singleton]
  · rw [h.position, significant_concat_byte, List.length_append, List.length_singleton]
  · rw [whole]
    exact not_completable_of_rejected h.spelled h.distinct rejected h.tokens
  · rw [shorter]
    exact completable_of_viable h.spelled h.distinct viable split

/-- What is cut off is met at the end. -/
theorem MetBehind.atEnd (h : e.MetBehind bytes is words read)
    (cut : Decoder.CutOff e.context e.cause) (all : read = bytes) : e.AtEnd bytes := by
  subst all
  exact ⟨h.offset, h.position, cut.ne_nil,
    completable_of_viable h.spelled h.distinct (cut.viable _) h.tokens⟩

end DecodeError

variable {source : Input} {e : DecodeError}

/-- **How decoding fails**: some instructions are returned, and behind them the tokens end within an
instruction, or one is rejected. -/
theorem metBehind_of_decode (reliable : source.Reliable) (h : decode source = .error e) :
    ∃ is words d read, (Decoder.ofInput source).Returns is d ∧ d.next.1 = .error e ∧
      e.MetBehind source.bytes is words read ∧
      (Decoder.CutOff e.context e.cause ∨
        Decoder.Rejected (definedLabels is).reverse e.context e.cause) := by
  obtain ⟨d', drained⟩ := decode_eq_error.mp h
  obtain ⟨is, d, returns, ⟨-, succeeded⟩ | ⟨e', failed, same⟩⟩ := Decoder.returns_of_drain drained
  · cases succeeded
  cases same
  -- What the tokens say.
  obtain ⟨words, spelled, signals, names, distinct, position, going⟩ :=
    returns.words rfl List.nodup_nil
  rw [names, Decoder.names_ofInput, List.append_nil, List.nodup_reverse] at distinct
  rw [Decoder.signals_ofInput, reliable.signals_eq] at signals
  obtain ⟨front, tokens, flat, first, later⟩ := List.map_eq_append_iff.mp signals
  obtain rfl := List.map_injective_iff.mpr (fun _ _ => Signal.token.inj) first
  obtain ⟨counted, why⟩ := Decoder.error_of_next going later.symm failed
  rw [names, Decoder.names_ofInput, List.append_nil] at why
  obtain ⟨more, rfl⟩ : ∃ more, tokens = e.context ++ more := by
    obtain ⟨-, all⟩ | ⟨-, split⟩ := why
    · exact ⟨[], by rw [all, List.append_nil]⟩
    · exact split
  -- What the bytes say, and that both say the same.
  obtain ⟨before, begun⟩ := returns.hasRead rfl (Reader.hasRead_new source)
  have told := Decoder.next_hasRead begun going
  rw [failed, reliable.delivered_eq] at told
  obtain ⟨read, begins, offset, bytes_position, shown⟩ := told
  have position : (significant read).length = (words.flatten ++ e.context).length := by
    rw [← bytes_position, counted, position, List.length_append]
    simp [Decoder.ofInput]
  obtain ⟨rest, split⟩ := begins
  rw [← split, significant_append, ← List.append_assoc] at flat
  refine ⟨is, words, d, read, returns, by rw [failed], ?_, ?_⟩
  · exact ⟨spelled, distinct, ⟨rest, split⟩, offset, bytes_position,
      (List.append_inj flat position).1, shown⟩
  · exact why.imp And.left And.left

/-- **Decoding errors are precise, and as early as possible.**  Let a reliable source be given
up.  Its tokens up to there are spellings of the instructions that have been returned, and
behind them exactly the context.  An instruction is rejected at the first token with which no
program goes on, and that token is told; or the source has ended and could go on, and then the
family of an incomplete opcode is the one whose lead has been read, if there is any. -/
theorem decode_error_precise (reliable : source.Reliable) (h : decode source = .error e) :
    (∃ is words d, (Decoder.ofInput source).Returns is d ∧ d.next.1 = .error e ∧
      List.Forall₂ IsSpelling is words ∧
      (significant source.bytes).take e.position = words.flatten ++ e.context ∧
      e.position ≤ (significant source.bytes).length) ∧
    match e.cause with
    | .unknownOpcode _ found | .invalidSign found =>
      e.AtToken source.bytes ∧ e.context.getLast? = some found
    | .duplicateLabel _ => e.AtToken source.bytes
    | .incompleteOpcode family =>
      e.AtEnd source.bytes ∧ (family = none ↔ e.context = [.tab]) ∧
        ∀ f, family = some f ↔ f.lead <+: e.context
    | .unterminated _ => e.AtEnd source.bytes
    | .io _ => False := by
  obtain ⟨is, words, d, read, returns, failed, met, why⟩ := metBehind_of_decode reliable h
  obtain ⟨take, bound⟩ := met.take_position
  refine ⟨⟨is, words, d, returns, failed, met.spelled, take, bound⟩, ?_⟩
  have shown := met.shown
  obtain cut | rejected := why
  · obtain ⟨family, cause⟩ | ⟨operand, cause⟩ := cut.cases_cause
    · rw [cause] at shown ⊢
      exact ⟨met.atEnd cut shown, (cause ▸ cut).family⟩
    · rw [cause] at shown ⊢
      exact met.atEnd cut shown
  · obtain ⟨family, found, cause, last⟩ | ⟨found, cause, last⟩ | ⟨name, cause⟩ :=
      rejected.cases_cause
    · rw [cause] at shown ⊢
      exact ⟨met.atToken rejected shown, last⟩
    · rw [cause] at shown ⊢
      exact ⟨met.atToken rejected shown, last⟩
    · rw [cause] at shown ⊢
      exact met.atToken rejected shown

/-- The empty label is defined twice, with a comment between and another behind. -/
theorem decode_error_precise_repeated :
    let source : Input :=
      ⟨[], [.data [0x0A, 0x20, 0x20, 0x0A], .interruption,
        .data [0x78, 0x0A, 0x20, 0x20, 0x0A, 0x78]]⟩
    ∃ e, decode source = .error e ∧ e.position = 8 ∧ e.AtToken source.bytes := by
  intro source
  have reliable : source.Reliable := by simp [source, Input.Reliable]
  let word : List Token := [.lineFeed, .space, .space, .lineFeed]
  have spelled : IsSpelling (.label .define ⟨[]⟩) word := .label .define [] List.not_mem_nil
  have flat : significant source.bytes = [word].flatten ++ (word ++ []) := rfl
  obtain ⟨e, failed, cause, position, -⟩ :=
    decode_of_repeated reliable (.cons spelled .nil) (List.nodup_singleton _) spelled rfl
      List.mem_cons_self flat
  have precise := (decode_error_precise reliable failed).2
  rw [cause] at precise
  exact ⟨e, failed, position, precise⟩

end Whitespace
