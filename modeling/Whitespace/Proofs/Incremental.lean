import Whitespace.Proofs.Comments
import Whitespace.Proofs.Division

/-!
# Decoding from sources that fail

A decoder is asked for one instruction after another, and its source may fail or pause in between.
It returns the instructions that are complete by then; what it returns next depends on how the bytes
divide that have been delivered up to there, and after that it returns nothing
(`incremental_decoding`).

## Main definitions

* `Decoder.items n d`, `Decoder.after n d` — what the next `n` calls return, and the decoder behind
  them.
* `Verdict.cause? failure? verdict`, `Verdict.last failure? read word verdict` — what is wrong
  behind the complete instructions, and what is returned there.
* `Division.ComesTo source is read word d` — the decoder has returned the complete instructions.
-/

namespace Whitespace

open Instruction (IsSpelling)

namespace Decoder

variable {d d' : Decoder}

/-! ## One call after another -/

/-- What the next calls return. -/
def items : Nat → Decoder → List Item
  | 0, _ => []
  | n + 1, d => d.next.1 :: items n d.next.2

/-- The decoder behind some calls. -/
def after : Nat → Decoder → Decoder
  | 0, d => d
  | n + 1, d => after n d.next.2

/-- Instructions are returned by so many calls. -/
theorem Returns.items {is : List Instruction} (h : d.Returns is d') (n : Nat) :
    d.items (is.length + n) = is.map .instruction ++ d'.items n ∧
      d.after (is.length + n) = d'.after n := by
  induction h with
  | refl d =>
    rw [List.length_nil, Nat.zero_add]
    exact ⟨rfl, rfl⟩
  | head next later ih =>
    obtain ⟨items, after⟩ := ih
    rw [List.length_cons, Nat.succ_add, Decoder.items, Decoder.after, next]
    exact ⟨congrArg _ items, after⟩

/-- **A decoder that is done** returns nothing more and stays as it is. -/
theorem items_of_done (done : d.done = true) (n : Nat) :
    d.items n = List.replicate n .finished ∧ d.after n = d := by
  have idle : d.next = (.finished, d) := by
    rw [next, if_pos done]
  induction n with
  | zero => exact ⟨rfl, rfl⟩
  | succ n ih =>
    rw [items, after, idle]
    exact ⟨congrArg _ ih.1, ih.2⟩

/-- A decoder that returns no instruction is done. -/
theorem done_of_next (nothing : ∀ i, d.next.1 ≠ .instruction i) : d.next.2.done = true := by
  by_cases done : d.done = true
  · rw [next, if_pos done]
    exact done
  · rw [next, if_neg done] at nothing ⊢
    rcases finished : finish .start d.reader #[] with ⟨outcome, reader, context⟩
    rw [finished] at nothing
    cases outcome with
    | finished | failed cause => rfl
    | complete i =>
      obtain ⟨d', accepted, -⟩ | ⟨name, repeated⟩ := accept_cases { d with reader, context } i
      · simp only [accepted] at nothing
        exact absurd rfl (nothing i)
      · simp only [repeated]
        rfl

end Decoder

/-! ## What is returned behind complete instructions -/

/-- What is wrong behind the complete instructions, if anything is.  A word that is not refused goes
up to the end of what is delivered, and if the source fails there, this is what is wrong. -/
def Verdict.cause? (failure? : Option String) : Verdict → Option DecodeError.Cause
  | refused cause => some cause
  | unfinished cause => some ((failure?.map .io).getD cause)
  | finished => failure?.map .io

/-- What is returned behind the complete instructions: the error at the word on which the verdict
falls, or nothing. -/
def Verdict.last (failure? : Option String) (read : List UInt8) (word : List Token)
    (verdict : Verdict) : Decoder.Item :=
  match verdict.cause? failure? with
  | some cause => .error ⟨cause, (significant read).length, read.length, word⟩
  | none => .finished

variable {source : Input} {is : List Instruction} {read : List UInt8} {word : List Token}
  {verdict : Verdict}

/-- A decoder has returned the complete instructions and comes to the word behind. -/
structure Division.ComesTo (source : Input) (is : List Instruction) (read : List UInt8)
    (word : List Token) (d : Decoder) : Prop where
  returns : (Decoder.ofInput source).Returns is d
  going : d.done = false
  names : d.names = (definedLabels is).reverse
  position : d.reader.position + word.length = (significant read).length
  hasRead : ∃ before, d.reader.HasRead source.delivered before
  signals : ∃ behind rest, read ++ behind = source.delivered ∧
    d.signals = word.map Signal.token ++ ((significant behind).map Signal.token ++ rest) ∧
    Input.Follows rest source.failure?

/-- **The complete instructions are returned.** -/
theorem Division.comesTo (h : Division source.delivered is read word verdict) :
    ∃ d, Division.ComesTo source is read word d := by
  obtain ⟨words, spelled, tokens⟩ := h.spelled
  obtain ⟨behind, split⟩ := h.begins
  obtain ⟨rest, signals, ends⟩ := source.signals_delivered
  rw [← split, significant_append, tokens, List.map_append, List.map_append, List.append_assoc,
    List.append_assoc, ← Decoder.signals_ofInput] at signals
  have distinct : ((definedLabels is).reverse ++ (Decoder.ofInput source).names).Nodup := by
    rw [Decoder.names_ofInput, List.append_nil, List.nodup_reverse]
    exact h.distinct
  obtain ⟨d, returns, going, left, names, position⟩ :=
    Decoder.exists_returns spelled rfl signals distinct
  rw [Decoder.names_ofInput, List.append_nil] at names
  refine ⟨d, returns, going, names, ?_, returns.hasRead rfl (Reader.hasRead_new source),
    behind, rest, split, left, ends⟩
  rw [position, tokens, List.length_append]
  simp [Decoder.ofInput]

/-- An error tells how many bytes have been read. -/
theorem Division.ComesTo.offset_of_error {d d' : Decoder} {e : DecodeError}
    (h : Division.ComesTo source is read word d) (failed : d.next = (.error e, d')) :
    ∃ read', read' <+: source.delivered ∧ e.offset = read'.length ∧
      e.position = (significant read').length ∧ e.cause.Shows source.delivered read' := by
  obtain ⟨before, begun⟩ := h.hasRead
  have told := Decoder.next_hasRead begun h.going
  rwa [failed] at told

/-- What is refused is an error at the last token of the word. -/
theorem Division.ComesTo.next_of_refused {d : Decoder} {cause : DecodeError.Cause}
    (h : Division.ComesTo source is read word d) (begins : read <+: source.delivered)
    (refused : Refused (definedLabels is) word cause) (token : EndsWithToken read) :
    d.next.1 = .error ⟨cause, (significant read).length, read.length, word⟩ := by
  obtain ⟨behind, rest, -, signals, -⟩ := h.signals
  have rejected : Decoder.Rejected d.names word cause :=
    rejected_iff.mpr (h.names ▸ refused.reverse)
  obtain ⟨offset, d', failed⟩ := Decoder.next_of_rejected h.going rejected signals
  rw [h.position] at failed
  -- As many tokens have been read as the word ends with, and the last one at the end.
  obtain ⟨read', begins', counted, position, shown⟩ := h.offset_of_error failed
  obtain rfl : read = read' :=
    eq_of_endsWithToken begins begins' token (rejected.endsWithToken shown) position
  rw [failed, ← show offset = read.length from counted]

/-- An error where everything has been read that is delivered. -/
theorem Division.ComesTo.next_of_failed {d : Decoder} {cause : DecodeError.Cause}
    {rest : List Signal} (h : Division.ComesTo source is read word d)
    (failed : Progress.start.readFrom d.signals = ⟨.failed cause, word, rest⟩)
    (shows : ∀ read', cause.Shows source.delivered read' → read' = source.delivered)
    (all : read = source.delivered) :
    d.next.1 = .error ⟨cause, (significant read).length, read.length, word⟩ := by
  obtain ⟨offset, d', failed⟩ := Decoder.next_of_failed h.going failed
  rw [h.position] at failed
  obtain ⟨read', -, counted, -, shown⟩ := h.offset_of_error failed
  have everything : offset = read.length := by
    rw [all, ← shows read' shown]
    exact counted
  rw [failed, everything]

/-- At the end of what is delivered, the failure of the source is an error, if there is one; else
the word is taken to end there. -/
theorem Division.ComesTo.next_of_leads {d : Decoder} {q : Progress}
    (h : Division.ComesTo source is read word d) (leads : Progress.start.Leads word q)
    (all : read = source.delivered) :
    match source.failure? with
    | some message =>
      d.next.1 = .error ⟨.io message, (significant read).length, read.length, word⟩
    | none => ∃ rest, Progress.start.readFrom d.signals = ⟨q.ending, word, rest⟩ := by
  obtain ⟨behind, rest, split, signals, follows⟩ := h.signals
  obtain rfl : behind = [] := by
    rw [← all] at split
    exact List.append_right_eq_self.mp split
  rw [significant_nil, List.map_nil, List.nil_append] at signals
  cases failing : source.failure? with
  | none =>
    rw [failing] at follows
    obtain ⟨more, ends⟩ := follows
    refine ⟨more, ?_⟩
    rw [signals, leads.readFrom, q.readFrom_ends ends]
    simp [Progress.Reading.after]
  | some message =>
    rw [failing] at follows
    obtain ⟨more, rfl⟩ := follows
    have failed : Progress.start.readFrom d.signals = ⟨.failed (.io message), word, more⟩ := by
      rw [signals, leads.readFrom]
      simp [Progress.readFrom, Progress.Reading.after]
    exact h.next_of_failed failed (fun _ shown => shown) all

/-- **Behind the complete instructions** is returned what the verdict says. -/
theorem Division.ComesTo.next {d : Decoder} (h : Division.ComesTo source is read word d)
    (division : Division source.delivered is read word verdict) :
    d.next.1 = verdict.last source.failure? read word := by
  have fits := division.fits
  cases verdict with
  | refused cause =>
    obtain ⟨refused, token⟩ := fits
    exact h.next_of_refused division.begins refused token
  | unfinished cause =>
    obtain ⟨unfinished, all⟩ := fits
    have shows : ∀ read', cause.Shows source.delivered read' → read' = source.delivered :=
      fun _ shown => (cutOff_iff.mpr unfinished).eq_source shown
    obtain ⟨q, leads, ends⟩ := cutOff_iff.mpr unfinished
    have next := h.next_of_leads leads all
    cases failing : source.failure? with
    | some message =>
      rw [failing] at next
      exact next
    | none =>
      rw [failing] at next
      obtain ⟨rest, failed⟩ := next
      rw [Progress.ending, ends] at failed
      rw [h.next_of_failed failed shows all]
      rfl
  | finished =>
    obtain ⟨rfl, all⟩ := fits
    have next := h.next_of_leads (.refl _) all
    cases failing : source.failure? with
    | some message =>
      rw [failing] at next
      exact next
    | none =>
      rw [failing] at next
      obtain ⟨rest, reading⟩ := next
      obtain ⟨r, -, -, finished⟩ := Decoder.next_eq h.going
      rw [reading] at finished
      rw [finished]
      rfl

/-- What is returned behind the complete instructions is none. -/
theorem Verdict.last_ne_instruction (failure? : Option String) (read : List UInt8)
    (word : List Token) (verdict : Verdict) (i : Instruction) :
    verdict.last failure? read word ≠ .instruction i := by
  rw [last]
  cases verdict.cause? failure? with
  | none | some cause => exact Decoder.Item.noConfusion

/-- **Decoding from sources that fail.**  The bytes that a source delivers before its first failure
or pause, or all if there is none, divide into words that are complete and something behind them.
Whichever way they do, a decoder that is asked again and again returns the complete instructions in
order, and then an error if there is one: for a word with which no program goes on or that defines a
label again, where it is met; else for the failure, behind all that has been delivered, with the
tokens of the word that was not complete; else for such a word, at the end or at the pause, which is
taken for it.  After that it returns nothing, and stays as it is; it reads no more, though there may
be more to read.

Decoding the source as a whole gives all these instructions if there is no error, and else the
error. -/
theorem incremental_decoding (source : Input) :
    (∃ is read word verdict, Division source.delivered is read word verdict) ∧
    ∀ is read word verdict, Division source.delivered is read word verdict →
      let d := Decoder.ofInput source
      let last := verdict.last source.failure? read word
      (∀ n,
        d.items (is.length + 1 + n) =
            is.map .instruction ++ last :: List.replicate n .finished ∧
          d.after (is.length + 1 + n) = d.after (is.length + 1)) ∧
      (decode source).map Decoding.instructions =
        match last with
        | .error e => .error e
        | _ => .ok is := by
  refine ⟨exists_division source.delivered, fun is read word verdict division => ?_⟩
  obtain ⟨d, comes⟩ := division.comesTo
  have next : d.next.1 = verdict.last source.failure? read word := comes.next division
  have no_more : ∀ i, d.next.1 ≠ .instruction i := by
    intro i
    rw [next]
    exact verdict.last_ne_instruction _ _ _ i
  refine ⟨fun n => ?_, ?_⟩
  · have done := d.next.2.items_of_done (Decoder.done_of_next no_more)
    obtain ⟨items, after⟩ := comes.returns.items (n + 1)
    obtain ⟨-, ended⟩ := comes.returns.items 1
    rw [Nat.add_assoc, Nat.add_comm 1 n, items, after, ended]
    simp only [Decoder.items, Decoder.after, next, (done n).1, (done n).2, and_self]
  · have drained := comes.returns.drain #[]
    rw [Array.empty_append, d.drain_eq] at drained
    rw [← next]
    rcases returned : d.next with ⟨item, d'⟩
    rw [returned] at drained no_more
    cases item with
    | instruction i => exact absurd rfl (no_more i)
    | error e =>
      rw [decode_eq_error.mpr ⟨d', drained⟩]
      rfl
    | finished => exact decode_map_eq_ok.mpr ⟨d', drained⟩

/-- A push is delivered in two parts, with a comment and a tab behind it; then the source fails,
though more would follow.  Where a source pauses behind a push, it is done, though another would
follow. -/
theorem incremental_decoding_failure :
    let source : Input := ⟨[], [.data [0x20, 0x20], .interruption,
      .data [0x20, 0x09, 0x0A, 0x78, 0x09], .failure "gone", .data [0x0A]]⟩
    let pausing : Input := ⟨[], [.data [0x20, 0x20, 0x20, 0x09, 0x0A], .pause,
      .data [0x20, 0x20, 0x20, 0x09, 0x0A]]⟩
    (Decoder.ofInput source).items 4 =
      [.instruction (.number .push 1), .error ⟨.io "gone", 6, 7, [.tab]⟩, .finished,
        .finished] ∧
    (Decoder.ofInput pausing).items 4 =
      [.instruction (.number .push 1), .finished, .finished, .finished] := by
  intro source pausing
  have spelled : IsSpelling (.number .push 1) [.space, .space, .space, .tab, .lineFeed] :=
    .number .push false [true]
  have division : Division source.delivered [.number .push 1] source.delivered [.tab]
      (.unfinished (.incompleteOpcode none)) :=
    { begins := List.prefix_refl _
      spelled := ⟨_, .cons spelled .nil, rfl⟩
      distinct := List.nodup_nil
      fits := ⟨.lead, rfl⟩ }
  have division' : Division pausing.delivered [.number .push 1] pausing.delivered [] .finished :=
    { begins := List.prefix_refl _
      spelled := ⟨_, .cons spelled .nil, rfl⟩
      distinct := List.nodup_nil
      fits := ⟨rfl, rfl⟩ }
  obtain ⟨returned, -⟩ := (incremental_decoding source).2 _ _ _ _ division
  obtain ⟨returned', -⟩ := (incremental_decoding pausing).2 _ _ _ _ division'
  exact ⟨(returned 2).1, (returned' 2).1⟩

end Whitespace
