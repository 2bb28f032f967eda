import Whitespace.Token
import Whitespace.Input

/-!
# Reading significant characters

A `Reader` takes the tokens out of a stream and counts as it goes: `offset` is the number of bytes
read, comments included, and `position` the number of tokens returned.
-/

namespace Whitespace

/-- A stream of bytes from which tokens are read. -/
structure Reader where
  input : Input
  offset : Nat := 0
  position : Nat := 0
  deriving DecidableEq, Repr

namespace Reader

/-- What a reader finds next. -/
inductive Item where
  | token (t : Token)
  | failure (message : String)
  | finished
  deriving DecidableEq, Repr

/-- Reads up to the next token, failure or end of the stream, through any comment before it.  A
pause is taken for the end. -/
def next (r : Reader) : Item × Reader :=
  let comment := r.input.span fun b => (Token.ofByte? b).isNone
  let offset := r.offset + comment.taken.length
  match comment.stop with
  | .finished | .pause => (.finished, ⟨comment.rest, offset, r.position⟩)
  | .failure message => (.failure message, ⟨comment.rest, offset, r.position⟩)
  | .byte b =>
    match Token.ofByte? b with
    | some t => (.token t, ⟨comment.rest.advance, offset + 1, r.position + 1⟩)
    | none => (.finished, ⟨comment.rest, offset, r.position⟩)

/-- A token that is returned has been read. -/
theorem unread_lt_of_next {r r' : Reader} {t : Token} (h : r.next = (.token t, r')) :
    r'.input.unread < r.input.unread := by
  simp only [next] at h
  split at h
  · simp at h
  · simp at h
  · simp at h
  · next b hstop =>
    obtain ⟨hb, bs, hrest⟩ := Input.span_stop hstop
    split at h
    · simp only [Prod.mk.injEq, Item.token.injEq] at h
      rw [← h.2, ← Input.unread_span_add (fun b => (Token.ofByte? b).isNone) r.input]
      simp only [Input.advance, Input.unread, Input.bytes, hrest, List.tail_cons,
        List.cons_append, List.length_cons]
      omega
    · simp at h

end Reader

end Whitespace
