import Whitespace.Decoding.Decoder
import Whitespace.Proofs.Delivered

/-!
# Counting bytes

A reader counts the bytes it reads, comments included, and the tokens it returns.  The counts are
those of the beginning that it has read of what is delivered (`Reader.HasRead`).  Behind a token
nothing more has been read, and where the reader is stopped everything that is delivered has; so it
shows in the cause of an error how far the source was read (`Decoder.next_hasRead`).

## Main definitions

* `Reader.HasCounted read r` — the counts of a reader are those of these bytes.
* `Reader.HasRead delivered read r` — the reader has read these bytes of what is delivered.
* `EndsWithToken bytes` — the last of the bytes is significant.
* `DecodeError.Cause.Shows delivered read cause` — how much has been read of what is delivered, by
  the cause of an error.
-/

namespace Whitespace

/-- The last of some bytes is significant. -/
def EndsWithToken (bytes : List UInt8) : Prop :=
  ∃ front t, bytes = front ++ [Token.byte t]

/-- One token more at the end. -/
theorem significant_concat_byte (bytes : List UInt8) (t : Token) :
    significant (bytes ++ [t.byte]) = significant bytes ++ [t] := by
  rw [significant_append, ← List.map_singleton, significant_map_byte]

namespace Reader

/-- A reader has counted some bytes, and the tokens among them. -/
structure HasCounted (read : List UInt8) (r : Reader) : Prop where
  offset : r.offset = read.length
  position : r.position = (significant read).length

/-- A reader has read some bytes: what is delivered begins with them, and they have been counted. -/
structure HasRead (delivered read : List UInt8) (r : Reader) : Prop
    extends r.HasCounted read where
  split : delivered = read ++ r.input.delivered

variable {delivered read : List UInt8} {r r' : Reader}

/-- A new reader has read nothing. -/
theorem hasRead_new (input : Input) : HasRead input.delivered [] { input } :=
  ⟨⟨rfl, rfl⟩, rfl⟩

/-- Passing over a comment counts its bytes. -/
theorem HasCounted.comment {comment : List UInt8} (h : r.HasCounted read)
    (unseen : significant comment = []) (input : Input) :
    HasCounted (read ++ comment) ⟨input, r.offset + comment.length, r.position⟩ where
  offset := by rw [List.length_append, h.offset]
  position := by rw [significant_append, unseen, List.append_nil, h.position]

/-- Reading a token counts its byte and the token. -/
theorem HasCounted.token {input : Input} {offset position : Nat}
    (h : HasCounted read ⟨input, offset, position⟩) (t : Token) (rest : Input) :
    HasCounted (read ++ [t.byte]) ⟨rest, offset + 1, position + 1⟩ where
  offset := by rw [List.length_append, ← h.offset, List.length_singleton]
  position := by
    rw [significant_concat_byte, List.length_append, ← h.position, List.length_singleton]

/-- A reader that passes over all that is left before it is stopped has counted everything. -/
theorem HasRead.stopped {taken : List UInt8} (h : r.HasRead delivered read)
    (unseen : significant taken = []) (all : taken = r.input.delivered) (rest : Input) :
    HasCounted delivered ⟨rest, r.offset + taken.length, r.position⟩ := by
  rw [h.split, ← all]
  exact h.comment unseen rest

/-- **What a reader has read** when it returns something: everything up to the token, or all that is
delivered. -/
theorem HasRead.next (h : r.HasRead delivered read) :
    match r.next with
    | (.token t, r') => ∃ front, r'.HasRead delivered (front ++ [t.byte])
    | (.failure _, r') | (.finished, r') => r'.HasCounted delivered := by
  have takes : (r.input.span isComment).Takes r.input.delivered :=
    Input.spanFrom_takes r.input.fetched r.input.pending isComment
  have unseen : significant (r.input.span isComment).taken = [] :=
    List.filterMap_eq_nil_iff.mpr fun b member =>
      Option.isNone_iff_eq_none.mp (Input.span_taken member)
  obtain ⟨taken, comment, next⟩ | ⟨taken, rest, comment, next⟩ |
    ⟨taken, message, rest, comment, next⟩ | ⟨taken, t, bytes, pending, comment, next⟩ :=
      r.next_cases
  · rw [comment] at takes unseen
    rw [next]
    exact h.stopped unseen takes {}
  · rw [comment] at takes unseen
    rw [next]
    exact h.stopped unseen takes rest
  · rw [comment] at takes unseen
    rw [next]
    exact h.stopped unseen takes rest
  · rw [comment] at takes unseen
    rw [next]
    have split : taken ++ t.byte :: (Input.mk bytes pending).delivered = r.input.delivered := takes
    refine ⟨read ++ taken, (h.comment unseen ⟨t.byte :: bytes, pending⟩).token t _, ?_⟩
    rw [h.split, ← split]
    simp

end Reader

/-! ## Reading an instruction -/

/-- How much has been read of what is delivered when a source is given up for a cause: up to the
token that is wrong, or everything. -/
def DecodeError.Cause.Shows (delivered read : List UInt8) : DecodeError.Cause → Prop
  | .unknownOpcode _ _ | .invalidSign _ | .duplicateLabel _ => EndsWithToken read
  | .incompleteOpcode _ | .unterminated _ | .io _ => read = delivered

namespace Progress

/-- A token is refused as the rest of an opcode or as a sign. -/
theorem cause_of_malformed {p : Progress} {t : Token} {cause : DecodeError.Cause}
    (h : p.feed t = .malformed cause) :
    (∃ family, cause = .unknownOpcode family t) ∨ cause = .invalidSign t := by
  cases p with
  | lead read =>
    rw [feed] at h
    split at h <;> cases h
  | command family read =>
    rw [feed] at h
    split at h
    · next op _ => cases op <;> cases h
    · split at h
      · cases h
      · cases h
        exact .inl ⟨family, rfl⟩
  | sign op =>
    cases t <;> cases h
    exact .inr rfl
  | digits op negative m => cases t <;> cases h
  | name op read => cases t <;> cases h

/-- A source that ends too early ends in an opcode or in an operand. -/
theorem cause_of_unfinished {p : Progress} {cause : DecodeError.Cause}
    (h : p.unfinished? = some cause) :
    (∃ family, cause = .incompleteOpcode family) ∨ ∃ operand, cause = .unterminated operand := by
  cases p with
  | lead read =>
    cases read <;> cases h
    exact .inl ⟨none, rfl⟩
  | command family read =>
    cases h
    exact .inl ⟨some family, rfl⟩
  | sign op | digits op negative m | name op read =>
    cases h
    exact .inr ⟨_, rfl⟩

end Progress

namespace Decoder

variable {delivered read : List UInt8} {d : Decoder}

/-- **What has been read when an instruction ends**: everything up to its last token, or all that is
delivered. -/
theorem finish_hasRead (p : Progress) (r : Reader) (context : Array Token) :
    ∀ read, r.HasRead delivered read →
      match finish p r context with
      | (.complete _, r', _) => ∃ read', r'.HasRead delivered read' ∧ EndsWithToken read'
      | (.failed cause, r', _) =>
        ∃ read', read' <+: delivered ∧ r'.HasCounted read' ∧ cause.Shows delivered read'
      | (.finished, r', _) => r'.HasCounted delivered := by
  fun_induction finish p r context with
  | case1 p r context r' found complete =>
    intro read h
    simpa only [found] using h.next
  | case2 p r context r' found cause incomplete =>
    intro read h
    have counted : r'.HasCounted delivered := by simpa only [found] using h.next
    refine ⟨delivered, List.prefix_refl _, counted, ?_⟩
    obtain ⟨family, rfl⟩ | ⟨operand, rfl⟩ := Progress.cause_of_unfinished incomplete <;> rfl
  | case3 p r context message r' found =>
    intro read h
    have counted : r'.HasCounted delivered := by simpa only [found] using h.next
    exact ⟨delivered, List.prefix_refl _, counted, rfl⟩
  | case4 p r context t r' found context' i complete =>
    intro read h
    have next := h.next
    rw [found] at next
    obtain ⟨front, after⟩ := next
    exact ⟨_, after, front, t, rfl⟩
  | case5 p r context t r' found context' cause malformed =>
    intro read h
    have next := h.next
    rw [found] at next
    obtain ⟨front, after⟩ := next
    refine ⟨_, ⟨_, after.split.symm⟩, after.toHasCounted, ?_⟩
    obtain ⟨family, rfl⟩ | rfl := Progress.cause_of_malformed malformed
    · exact ⟨front, t, rfl⟩
    · exact ⟨front, t, rfl⟩
  | case6 p r context t r' found context' q more ih =>
    intro read h
    have next := h.next
    rw [found] at next
    obtain ⟨front, after⟩ := next
    exact ih _ after

/-- An instruction is taken up and returned, or it defines a label again. -/
theorem accept_cases (d : Decoder) (i : Instruction) :
    (∃ d', d.accept i = (.instruction i, d') ∧ d'.reader = d.reader) ∨
      ∃ name, d.accept i = d.fail (.duplicateLabel name) := by
  rw [accept]
  split
  · exact .inl ⟨_, rfl, rfl⟩
  · split
    · exact .inr ⟨_, rfl⟩
    · exact .inl ⟨_, rfl, rfl⟩

/-- **What has been read when a decoder returns something**; an error says so. -/
theorem next_hasRead (h : d.reader.HasRead delivered read) (going : d.done = false) :
    match d.next with
    | (.instruction _, d') => ∃ read', d'.reader.HasRead delivered read'
    | (.error e, _) => ∃ read', read' <+: delivered ∧ e.offset = read'.length ∧
        e.position = (significant read').length ∧ e.cause.Shows delivered read'
    | (.finished, d') => d'.reader.HasCounted delivered := by
  have ended := finish_hasRead .start d.reader #[] read h
  rw [next, if_neg (by simp [going])]
  rcases finished : finish .start d.reader #[] with ⟨outcome, reader, context⟩
  rw [finished] at ended
  cases outcome with
  | finished => exact ended
  | failed cause =>
    obtain ⟨read', begins, counted, shown⟩ := ended
    exact ⟨read', begins, counted.offset, counted.position, shown⟩
  | complete i =>
    obtain ⟨read', after, token⟩ := ended
    obtain ⟨d', accepted, same⟩ | ⟨name, repeated⟩ := accept_cases { d with reader, context } i
    · simp only [accepted]
      exact ⟨read', same ▸ after⟩
    · simp only [repeated]
      exact ⟨read', ⟨_, after.split.symm⟩, after.offset, after.position, token⟩

end Decoder

end Whitespace
