import Whitespace.Interpreter
import Whitespace.Proofs.ErrorPrecision

/-!
# Comments and deliveries do not matter

A decoder sees its source only through the signals.  So decoders that are *alike*, with the same
signals before them and the same memory, go on alike (`Decoder.Alike.next`), and in the end two
sources with the same signals have become the same instructions, or have failed with the same error
but for the offset, which counts comments too (`decode_of_signals`).

Where an error is met is known from the tokens: behind one of them, or at the end.  So sources with
the same bytes, however delivered, agree on the offset as well (`decode_of_bytes`).

## Main definitions

* `DecodeError.anywhere`, `Error.anywhere` — an error without its offset.
* `Decoder.Alike d d'` — the decoders differ only in offset and in what is delivered when.
-/

namespace Whitespace

/-- A decoding error without its offset. -/
def DecodeError.anywhere (e : DecodeError) : DecodeError :=
  { e with offset := 0 }

/-- An error without the offset that a decoding error has. -/
def Error.anywhere : Error → Error
  | decode e => decode e.anywhere
  | link e => link e
  | run f => run f

/-- What is reported, the error changed. -/
def Reported.mapError {α ε ε' : Type} (f : ε → ε') (r : Reported (Except ε α)) :
    Reported (Except ε' α) :=
  { r with result := r.result.mapError f }

namespace Decoder

/-- Decoders have the same signals before them and remember the same. -/
structure Alike (d d' : Decoder) : Prop where
  signals : d.signals = d'.signals
  position : d.reader.position = d'.reader.position
  defined : d.defined = d'.defined
  context : d.context = d'.context
  count : d.count = d'.count
  done : d.done = d'.done

/-- Decoders have returned the same, an offset apart, and are alike. -/
inductive ReturnAlike : Item × Decoder → Item × Decoder → Prop where
  | instruction (i : Instruction) {d d' : Decoder} (alike : Alike d d') :
      ReturnAlike (.instruction i, d) (.instruction i, d')
  | error {e e' : DecodeError} {d d' : Decoder} (same : e.anywhere = e'.anywhere)
      (alike : Alike d d') : ReturnAlike (.error e, d) (.error e', d')
  | finished {d d' : Decoder} (alike : Alike d d') : ReturnAlike (.finished, d) (.finished, d')

variable {d d' : Decoder}

/-- Decoders that are alike fail alike. -/
theorem Alike.fail (h : Alike d d') (cause : DecodeError.Cause) :
    ReturnAlike (d.fail cause) (d'.fail cause) := by
  refine .error ?_ ⟨h.signals, h.position, h.defined, h.context, h.count, rfl⟩
  simp only [DecodeError.anywhere, h.position, h.context]

/-- Decoders that are alike take up an instruction alike. -/
theorem Alike.accept (h : Alike d d') (i : Instruction) :
    ReturnAlike (d.accept i) (d'.accept i) := by
  have count : d.count + 1 = d'.count + 1 := congrArg (· + 1) h.count
  simp only [Decoder.accept, h.defined]
  cases i.defined? with
  | none => exact .instruction i ⟨h.signals, h.position, rfl, h.context, count, h.done⟩
  | some name =>
    by_cases known : (d'.defined.lookup name).isSome = true
    · simp only [known, if_true]
      exact h.fail (.duplicateLabel name)
    · simp only [known, Bool.false_eq_true, if_false, h.count]
      exact .instruction i ⟨h.signals, h.position, rfl, h.context, rfl, h.done⟩

/-- **Decoders that are alike go on alike.** -/
theorem Alike.next (h : Alike d d') : ReturnAlike d.next d'.next := by
  cases going : d.done with
  | true =>
    rw [Decoder.next, Decoder.next, if_pos going, if_pos (h.done ▸ going)]
    exact .finished h
  | false =>
    obtain ⟨r, left, position, next⟩ := next_eq going
    obtain ⟨r', left', position', next'⟩ := next_eq (h.done ▸ going)
    rw [h.signals] at left position next
    rw [h.position] at position
    have alike : Alike
        { d with reader := r, context := (Progress.start.readFrom d'.signals).read.toArray }
        { d' with reader := r', context := (Progress.start.readFrom d'.signals).read.toArray } :=
      ⟨left.trans left'.symm, position.trans position'.symm, h.defined, rfl, h.count, h.done⟩
    rw [next, next']
    cases (Progress.start.readFrom d'.signals).outcome with
    | finished =>
      exact .finished
        ⟨alike.signals, alike.position, alike.defined, alike.context, alike.count, rfl⟩
    | failed cause => exact alike.fail cause
    | complete i => exact alike.accept i

/-- **Decoders that are alike are drained alike.** -/
theorem Alike.drain (h : Alike d d') (read : Array Instruction) :
    (d.drain read).1.mapError DecodeError.anywhere =
        (d'.drain read).1.mapError DecodeError.anywhere ∧
      Alike (d.drain read).2 (d'.drain read).2 := by
  fun_induction Decoder.drain d read generalizing d' with
  | case1 d read d₁ next =>
    have returned := h.next
    rw [d'.drain_eq]
    generalize d'.next = r at returned ⊢
    rw [next] at returned
    cases returned with
    | finished alike => exact ⟨rfl, alike⟩
  | case2 d read e d₁ next =>
    have returned := h.next
    rw [d'.drain_eq]
    generalize d'.next = r at returned ⊢
    rw [next] at returned
    cases returned with
    | error same alike => exact ⟨congrArg Except.error same, alike⟩
  | case3 d read i d₁ next ih =>
    have returned := h.next
    rw [d'.drain_eq]
    generalize d'.next = r at returned ⊢
    rw [next] at returned
    cases returned with
    | instruction _ alike => exact ih alike

end Decoder

/-! ## Sources with the same signals -/

/-- Results that agree on all but their errors are the same, or both are errors. -/
theorem mapError_eq_mapError {α ε ε' : Type} {f : ε → ε'} {x y : Except ε α}
    (h : x.mapError f = y.mapError f) :
    (∃ value, x = .ok value ∧ y = .ok value) ∨
      ∃ e e', x = .error e ∧ y = .error e' ∧ f e = f e' := by
  cases x with
  | ok value =>
    cases y with
    | ok value' => exact .inl ⟨value, rfl, (congrArg Except.ok (Except.ok.inj h)).symm⟩
    | error e' => cases h
  | error e =>
    cases y with
    | ok value' => cases h
    | error e' => exact .inr ⟨e, e', rfl, rfl, Except.error.inj h⟩

variable {a b : Input}

/-- **Sources with the same signals are decoded alike**, reliable or not. -/
theorem decode_of_signals (same : a.signals = b.signals) :
    (decode a).mapError DecodeError.anywhere = (decode b).mapError DecodeError.anywhere := by
  have alike : Decoder.Alike (.ofInput a) (.ofInput b) := ⟨same, rfl, rfl, rfl, rfl, rfl⟩
  obtain ⟨results, ends⟩ := alike.drain #[]
  simp only [decode]
  generalize (Decoder.ofInput a).drain #[] = drained at results ends ⊢
  generalize (Decoder.ofInput b).drain #[] = drained' at results ends ⊢
  obtain ⟨result, d⟩ := drained
  obtain ⟨result', d'⟩ := drained'
  have labels : d.defined.length = d'.defined.length := congrArg List.length ends.defined
  have tokens : d.reader.position = d'.reader.position := ends.position
  obtain ⟨read, rfl, rfl⟩ | ⟨e, e', rfl, rfl, same⟩ := mapError_eq_mapError results
  · simp only [labels, tokens]
  · exact congrArg Except.error same

/-- What is loaded is known from what is decoded. -/
theorem load_of_decode
    (same : (decode a).mapError DecodeError.anywhere = (decode b).mapError DecodeError.anywhere) :
    (load a).mapError Error.anywhere = (load b).mapError Error.anywhere := by
  simp only [load]
  obtain ⟨decoding, decoded, decoded'⟩ | ⟨e, e', failed, failed', same⟩ := mapError_eq_mapError same
  · rw [decoded, decoded']
  · rw [failed, failed']
    simp only [Reported.mapError, Except.mapError, Error.anywhere, same]

/-- What is listed is known from what is decoded. -/
theorem disassemble_of_decode
    (same : (decode a).mapError DecodeError.anywhere = (decode b).mapError DecodeError.anywhere) :
    (disassemble a).mapError DecodeError.anywhere =
      (disassemble b).mapError DecodeError.anywhere := by
  simp only [disassemble]
  obtain ⟨decoding, decoded, decoded'⟩ | ⟨e, e', failed, failed', same⟩ := mapError_eq_mapError same
  · rw [decoded, decoded']
  · rw [failed, failed']
    simp only [Reported.mapError, Except.mapError, same]

/-- What is executed is known from what is loaded. -/
theorem execute_of_load {source source' : List UInt8}
    (same : (load (.ofBytes source)).mapError Error.anywhere =
      (load (.ofBytes source')).mapError Error.anywhere) (fuel : Nat) (input : List UInt8) :
    (execute fuel source input).map (Reported.mapError Error.anywhere) =
      (execute fuel source' input).map (Reported.mapError Error.anywhere) := by
  simp only [execute]
  generalize load (.ofBytes source) = loaded at same ⊢
  generalize load (.ofBytes source') = loaded' at same ⊢
  obtain ⟨result, events⟩ := loaded
  obtain ⟨result', events'⟩ := loaded'
  obtain rfl : events = events' := congrArg Reported.events same
  obtain ⟨program, rfl, rfl⟩ | ⟨e, e', rfl, rfl, anywhere⟩ :=
    mapError_eq_mapError (congrArg Reported.result same)
  · rfl
  · simp only [Option.map_some, Reported.mapError, Except.mapError, anywhere]

/-! ## Sources with the same bytes -/

variable {bytes read read' : List UInt8}

/-- A longer beginning that ends with a token has more tokens. -/
theorem eq_of_isPrefix (shorter : read <+: read') (token : EndsWithToken read')
    (count : (significant read).length = (significant read').length) : read = read' := by
  obtain ⟨more, rfl⟩ := shorter
  obtain ⟨front, t, ended⟩ := token
  obtain rfl | ⟨more, b, rfl⟩ := more.eq_nil_or_concat
  · rw [List.append_nil]
  · rw [List.concat_eq_append, ← List.append_assoc] at ended
    obtain rfl := List.singleton_inj.mp (List.append_inj' ended rfl).2
    rw [List.concat_eq_append, ← List.append_assoc, significant_concat_byte, significant_append,
      List.length_append, List.length_append, List.length_singleton] at count
    omega

/-- Two beginnings with as many tokens, each with a token at the end, are the same. -/
theorem eq_of_endsWithToken (begins : read <+: bytes) (begins' : read' <+: bytes)
    (token : EndsWithToken read) (token' : EndsWithToken read')
    (count : (significant read).length = (significant read').length) : read = read' := by
  rcases List.prefix_or_prefix_of_prefix begins begins' with shorter | longer
  · exact eq_of_isPrefix shorter token' count
  · exact (eq_of_isPrefix longer token count.symm).symm

/-- **Where an error was met is known from the tokens**: the rest of the error tells the offset. -/
theorem offset_of_decode {e e' : DecodeError} (reliable : a.Reliable) (reliable' : b.Reliable)
    (bytes : a.bytes = b.bytes) (failed : decode a = .error e) (failed' : decode b = .error e')
    (same : e.anywhere = e'.anywhere) : e.offset = e'.offset := by
  obtain ⟨is, words, d, read, -, -, met, why⟩ := metBehind_of_decode reliable failed
  obtain ⟨is', words', d', read', -, -, met', -⟩ := metBehind_of_decode reliable' failed'
  obtain ⟨cause, position, -⟩ : e.cause = e'.cause ∧ e.position = e'.position ∧ _ := by
    simpa [DecodeError.anywhere] using same
  have count : (significant read).length = (significant read').length := by
    rw [← met.position, ← met'.position, position]
  have begins := met'.begins
  have shown := met.shown
  have shown' := met'.shown
  rw [← bytes] at begins
  rw [← bytes, ← cause] at shown'
  have all : read = read' := by
    obtain cut | rejected := why
    · rw [cut.eq_source shown, cut.eq_source shown']
    · exact eq_of_endsWithToken met.begins begins (rejected.endsWithToken shown)
        (rejected.endsWithToken shown') count
  rw [met.offset, met'.offset, all]

/-- **Sources with the same bytes are decoded to the same**, however they are delivered. -/
theorem decode_of_bytes (reliable : a.Reliable) (reliable' : b.Reliable)
    (bytes : a.bytes = b.bytes) : decode a = decode b := by
  have signals : a.signals = b.signals := by
    rw [reliable.signals_eq, reliable'.signals_eq, bytes]
  obtain ⟨decoding, decoded, decoded'⟩ | ⟨e, e', failed, failed', same⟩ :=
    mapError_eq_mapError (decode_of_signals signals)
  · rw [decoded, decoded']
  · have offset := offset_of_decode reliable reliable' bytes failed failed' same
    rw [failed, failed']
    obtain ⟨cause, position, offset₁, context⟩ := e
    obtain ⟨cause', position', offset₂, context'⟩ := e'
    cases same
    cases offset
    rfl

/-- **Comments and deliveries do not matter.**  Let two reliable sources have the same
significant bytes.  They are decoded to the same instructions, or fail to be with the same error but
for its offset; so they are loaded, listed and executed alike.  If their bytes are the same, so are
their offsets. -/
theorem decode_of_significant (reliable : a.Reliable) (reliable' : b.Reliable)
    (same : significant a.bytes = significant b.bytes) :
    (decode a).mapError DecodeError.anywhere = (decode b).mapError DecodeError.anywhere ∧
    (load a).mapError Error.anywhere = (load b).mapError Error.anywhere ∧
    (disassemble a).mapError DecodeError.anywhere = (disassemble b).mapError DecodeError.anywhere ∧
    (∀ fuel config streams,
      ((load a).result.map fun program => Machine.run fuel config program streams).mapError
          Error.anywhere =
        ((load b).result.map fun program => Machine.run fuel config program streams).mapError
          Error.anywhere) ∧
    (∀ fuel input,
      (execute fuel a.bytes input).map (Reported.mapError Error.anywhere) =
        (execute fuel b.bytes input).map (Reported.mapError Error.anywhere)) ∧
    (a.bytes = b.bytes →
      decode a = decode b ∧ load a = load b ∧ disassemble a = disassemble b) := by
  have signals : a.signals = b.signals := by
    rw [reliable.signals_eq, reliable'.signals_eq, same]
  have decoded := decode_of_signals signals
  have loaded := load_of_decode decoded
  refine ⟨decoded, loaded, disassemble_of_decode decoded, ?_, ?_, ?_⟩
  · intro fuel config streams
    obtain ⟨program, ready, ready'⟩ | ⟨e, e', failed, failed', anywhere⟩ :=
      mapError_eq_mapError (congrArg Reported.result loaded)
    · rw [ready, ready']
    · simp only [failed, failed', Except.map, Except.mapError, anywhere]
  · have signals : (Input.ofBytes a.bytes).signals = (Input.ofBytes b.bytes).signals := by
      rw [(Input.reliable_ofBytes _).signals_eq, (Input.reliable_ofBytes _).signals_eq,
        Input.bytes_ofBytes, Input.bytes_ofBytes, same]
    exact execute_of_load (load_of_decode (decode_of_signals signals))
  · intro bytes
    have decoded := decode_of_bytes reliable reliable' bytes
    simp only [load, disassemble, decoded, and_self]

/-- A number without a sign, with a comment inside that is no text and is delivered in two parts:
what is wrong with it is wrong without the comment, and where it is wrong does not depend on the
parts. -/
theorem decode_of_significant_push :
    let commented : Input := ⟨[], [.data [0x20, 0xFF], .interruption, .data [0x20, 0x0A]]⟩
    let whole : Input := .ofBytes [0x20, 0xFF, 0x20, 0x0A]
    let bare : Input := .ofBytes [0x20, 0x20, 0x0A]
    (load commented).mapError Error.anywhere = (load bare).mapError Error.anywhere ∧
      decode commented = decode whole := by
  intro commented whole bare
  have reliable : commented.Reliable := by simp [commented, Input.Reliable]
  have alike := decode_of_significant reliable (Input.reliable_ofBytes _)
    (show significant commented.bytes = significant bare.bytes from rfl)
  have same := decode_of_significant reliable (Input.reliable_ofBytes _)
    (show significant commented.bytes = significant whole.bytes from rfl)
  exact ⟨alike.2.1, (same.2.2.2.2.2 rfl).1⟩

end Whitespace
