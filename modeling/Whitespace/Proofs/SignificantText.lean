import Whitespace.Input
import Whitespace.Token

/-!
# The significant characters of a text

A source that is a text can be filtered before it is spelled in bytes or after: every byte of a
longer spelling is too large to be significant, so the significant bytes of a text are its spaces,
tabs and line feeds (`significant_ofText`).
-/

namespace Whitespace

/-- The token that a character is, if it is significant. -/
def Token.ofChar? (c : Char) : Option Token :=
  if c = ' ' then some .space
  else if c = '\t' then some .tab
  else if c = '\n' then some .lineFeed
  else none

theorem Token.ofChar?_eq_some_iff {c : Char} {t : Token} : ofChar? c = some t ↔ c = t.char := by
  constructor
  · intro known
    rw [ofChar?] at known
    split at known
    · next same => cases known; exact same
    · split at known
      · next same => cases known; exact same
      · split at known
        · next same => cases known; exact same
        · exact nomatch known
  · rintro rfl
    cases t <;> rfl

/-- The significant characters of a text, in order. -/
def significantChars (text : List Char) : List Token :=
  text.filterMap Token.ofChar?

@[simp] theorem significantChars_append (a b : List Char) :
    significantChars (a ++ b) = significantChars a ++ significantChars b := by
  simp [significantChars]

@[simp] theorem significantChars_map_char (ts : List Token) :
    significantChars (ts.map Token.char) = ts := by
  induction ts with
  | nil => rfl
  | cons t ts ih =>
    have known : Token.ofChar? t.char = some t := Token.ofChar?_eq_some_iff.mpr rfl
    rw [List.map_cons, significantChars, List.filterMap_cons_some known]
    exact congrArg (t :: ·) ih

/-! ## Bytes of texts -/

/-- The list of a byte array has its bytes in order. -/
theorem byteArray_toList (bytes : ByteArray) : bytes.toList = bytes.data.toList := by
  -- The list is built from the front, last byte first; so the induction is on what is left to add.
  have loop : ∀ left i read, i + left = bytes.size →
      ByteArray.toList.loop bytes i read = read.reverse ++ bytes.data.toList.drop i := by
    intro left
    induction left with
    | zero =>
      intro i read whole
      have none_left : bytes.data.toList.length ≤ i := by
        rw [Array.length_toList]
        exact Nat.le_of_eq whole.symm
      rw [ByteArray.toList.loop, if_neg (by omega), List.drop_of_length_le none_left,
        List.append_nil]
    | succ left ih =>
      intro i read some_left
      have bound : i < bytes.data.size := by
        change i < bytes.size
        omega
      have next : bytes.get! i = bytes.data.toList[i] := by
        rw [Array.getElem_toList]
        exact getElem!_pos bytes.data i bound
      rw [ByteArray.toList.loop, if_pos (by omega), ih (i + 1) _ (by omega), List.reverse_cons,
        List.append_assoc, next, List.singleton_append, List.getElem_cons_drop]
  have all := loop bytes.size 0 [] (Nat.zero_add _)
  rwa [List.reverse_nil, List.nil_append, List.drop_zero] at all

/-- A character of one byte is significant if its byte is. -/
theorem ofByte?_ofNat {c : Char} (small : c.toNat < 0x80) :
    Token.ofByte? (UInt8.ofNat c.toNat) = Token.ofChar? c := by
  refine Option.ext fun t => ?_
  rw [Token.ofByte?_eq_some_iff, Token.ofChar?_eq_some_iff]
  constructor
  · intro same
    have number : c.toNat = t.char.toNat := by
      have := congrArg UInt8.toNat same
      rw [UInt8.toNat_ofNat_of_lt' (show c.toNat < 0x100 by omega)] at this
      cases t <;> exact this
    exact Char.toNat_inj.mp number
  · rintro rfl
    cases t <;> rfl

/-- A byte that is not ASCII is not significant. -/
theorem ofByte?_of_large {b : UInt8} (large : 0x80 ≤ b.toNat) : Token.ofByte? b = none := by
  cases found : Token.ofByte? b with
  | none => rfl
  | some t =>
    rw [Token.ofByte?_eq_some_iff.mp found] at large
    cases t <;> exact absurd large (by decide)

/-- A character that is not ASCII is not significant. -/
theorem ofChar?_of_large {c : Char} (large : 0x80 ≤ c.toNat) : Token.ofChar? c = none := by
  cases found : Token.ofChar? c with
  | none => rfl
  | some t =>
    rw [Token.ofChar?_eq_some_iff.mp found] at large
    cases t <;> exact absurd large (by decide)

/-- A byte made by adding a mark of at least `0x80` is not ASCII. -/
theorem toNat_large {n k : Nat} (high : 0x80 ≤ k) (low : n + k < 0x100) :
    0x80 ≤ (UInt8.ofNat (n + k)).toNat := by
  rw [UInt8.toNat_ofNat_of_lt' low]
  omega

/-- The bytes of a character that is not ASCII are not ASCII either. -/
theorem large_of_mem_utf8EncodeChar {c : Char} (large : 0x80 ≤ c.toNat) :
    ∀ b ∈ String.utf8EncodeChar c, 0x80 ≤ b.toNat := by
  intro b member
  have wide : ¬c.val.toNat ≤ 0x7f := Nat.not_le_of_lt large
  simp only [String.utf8EncodeChar, if_neg wide] at member
  split at member
  · simp only [List.mem_cons, List.not_mem_nil, or_false] at member
    rcases member with rfl | rfl <;> exact toNat_large (by decide) (by omega)
  · split at member
    · simp only [List.mem_cons, List.not_mem_nil, or_false] at member
      rcases member with rfl | rfl | rfl <;> exact toNat_large (by decide) (by omega)
    · simp only [List.mem_cons, List.not_mem_nil, or_false] at member
      rcases member with rfl | rfl | rfl | rfl <;> exact toNat_large (by decide) (by omega)

/-- The significant bytes of a character: one if it is significant itself. -/
theorem significant_utf8EncodeChar (c : Char) :
    significant (String.utf8EncodeChar c) = (Token.ofChar? c).toList := by
  by_cases small : c.toNat < 0x80
  · have single : String.utf8EncodeChar c = [UInt8.ofNat c.toNat] :=
      if_pos (Nat.le_of_lt_succ small)
    have same := ofByte?_ofNat small
    rw [single, significant]
    cases known : Token.ofChar? c with
    | none => rw [List.filterMap_cons_none (same.trans known)]; rfl
    | some t => rw [List.filterMap_cons_some (same.trans known)]; rfl
  · have large : 0x80 ≤ c.toNat := Nat.le_of_not_lt small
    rw [ofChar?_of_large large]
    exact List.filterMap_eq_nil_iff.mpr fun b member =>
      ofByte?_of_large (large_of_mem_utf8EncodeChar large b member)

theorem bytes_ofText (text : List Char) :
    (Input.ofText (String.ofList text)).bytes = text.flatMap String.utf8EncodeChar := by
  rw [Input.ofText, Input.ofBytes, byteArray_toList, String.toUTF8_eq_toByteArray,
    String.toByteArray_ofList, List.utf8Encode, List.toList_data_toByteArray]
  simp [Input.bytes, Delivery.bytes]

/-- **The significant bytes of a text** are its significant characters. -/
theorem significant_ofText (text : List Char) :
    significant (Input.ofText (String.ofList text)).bytes = significantChars text := by
  rw [bytes_ofText]
  induction text with
  | nil => rfl
  | cons c text ih =>
    rw [List.flatMap_cons, significant_append, significant_utf8EncodeChar, ih, significantChars,
      significantChars]
    cases known : Token.ofChar? c with
    | none => rw [List.filterMap_cons_none known]; rfl
    | some t => rw [List.filterMap_cons_some known]; rfl

end Whitespace
