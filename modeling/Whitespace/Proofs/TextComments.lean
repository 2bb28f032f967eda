import Whitespace.Proofs.Arrivals
import Whitespace.Proofs.Comments
import Whitespace.Proofs.ReliableReading
import Whitespace.Proofs.SignificantText

/-!
# Comments in texts

A source is read byte by byte, also if it is a text.  Since no byte of a longer spelling is
significant (`significant_utf8EncodeChar`), a reader returns the spaces, tabs and line feeds of the
text (`Reader.items_of_text`), even if a character is divided between two deliveries.

So decoding does not see the other characters, wherever they stand and however many bytes they have:
texts with the same spaces, tabs and line feeds are decoded alike, and that is so if one is the
other with comments inserted (`Commented.filter_isMark`).

## Main definitions

* `isMark c` — the character is a space, a tab or a line feed.
* `Commented bare text` — the text is another one with characters inserted that are no marks.
-/

namespace Whitespace

/-- Spaces, tabs and line feeds are the marks of a text; its other characters are comment. -/
def isMark (c : Char) : Bool :=
  c == ' ' || c == '\t' || c == '\n'

/-- A text is another one with comments inserted, anywhere. -/
inductive Commented : List Char → List Char → Prop where
  | nil : Commented [] []
  | keep (c : Char) {bare text : List Char} (later : Commented bare text) :
      Commented (c :: bare) (c :: text)
  | insert {c : Char} (comment : isMark c = false) {bare text : List Char}
      (later : Commented bare text) : Commented bare (c :: text)

/-- Inserted comments leave the marks as they are. -/
theorem Commented.filter_isMark {bare text : List Char} (h : Commented bare text) :
    text.filter isMark = bare.filter isMark := by
  induction h with
  | nil => rfl
  | keep c later ih => rw [List.filter_cons, List.filter_cons, ih]
  | insert comment later ih => rw [List.filter_cons_of_neg (by simp [comment]), ih]

/-- The marks are the characters that are tokens. -/
theorem isMark_eq (c : Char) : isMark c = (Token.ofChar? c).isSome := by
  rw [Bool.eq_iff_iff, Option.isSome_iff_exists]
  simp only [isMark, Bool.or_eq_true, beq_iff_eq, Token.ofChar?_eq_some_iff]
  constructor
  · rintro ((rfl | rfl) | rfl)
    · exact ⟨.space, rfl⟩
    · exact ⟨.tab, rfl⟩
    · exact ⟨.lineFeed, rfl⟩
  · rintro ⟨t, rfl⟩
    cases t <;> decide

/-- The significant characters of a text stand for its marks. -/
theorem map_char_significantChars (text : List Char) :
    (significantChars text).map Token.char = text.filter isMark := by
  induction text with
  | nil => rfl
  | cons c text ih =>
    cases known : Token.ofChar? c with
    | none =>
      have comment : ¬isMark c = true := by simp [isMark_eq, known]
      rw [significantChars, List.filterMap_cons_none known, List.filter_cons_of_neg comment]
      exact ih
    | some t =>
      have mark : isMark c = true := by simp [isMark_eq, known]
      rw [significantChars, List.filterMap_cons_some known, List.filter_cons_of_pos mark,
        Token.ofChar?_eq_some_iff.mp known]
      exact congrArg _ ih

/-- Texts with the same marks have the same significant characters. -/
theorem significantChars_eq_of_filter {a b : List Char} (same : a.filter isMark = b.filter isMark) :
    significantChars a = significantChars b := by
  have tokens := congrArg significantChars same
  rwa [← map_char_significantChars, ← map_char_significantChars, significantChars_map_char,
    significantChars_map_char] at tokens

/-- **A text signals its significant characters**, however its bytes are delivered. -/
theorem signals_of_text {source : Input} {text : String}
    (offers : source.Offers text.toUTF8.toList) :
    source.signals = (significantChars text.toList).map .token := by
  have bytes := bytes_ofText text.toList
  have tokens := significant_ofText text.toList
  rw [bytes, ← toList_toUTF8] at tokens
  rw [offers.1.signals_eq, offers.2, tokens]

/-- **A reader of a text** returns its significant characters, and then nothing more. -/
theorem Reader.items_of_text {source : Input} {text : String}
    (offers : source.Offers text.toUTF8.toList) (n : Nat) :
    (Reader.ofInput source).items n =
      ((significantChars text.toList).take n).map .token ++
        List.replicate (n - (significantChars text.toList).length) .finished := by
  rw [Reader.items_eq, signals_of_text offers, List.length_map, ← List.map_take, List.map_map]
  rfl

/-- **Comments in texts.**  From the bytes of a text a reader returns its spaces, tabs and line
feeds in order, and then nothing more.  So texts in which these are the same are decoded to the same
instructions, or fail with the same error but for its offset; and they are the same if comments are
inserted into a text, of whatever characters and wherever they stand. -/
theorem decode_of_text {source : Input} {text : String}
    (offers : source.Offers text.toUTF8.toList) :
    (significantChars text.toList).map Token.char = text.toList.filter isMark ∧
    (∀ n, (Reader.ofInput source).items n =
      ((significantChars text.toList).take n).map .token ++
        List.replicate (n - (significantChars text.toList).length) .finished) ∧
    (∀ (other : Input) (text' : String), other.Offers text'.toUTF8.toList →
      text'.toList.filter isMark = text.toList.filter isMark →
      (decode other).mapError DecodeError.anywhere =
        (decode source).mapError DecodeError.anywhere) ∧
    ∀ (other : Input) (commented : String), other.Offers commented.toUTF8.toList →
      Commented text.toList commented.toList →
      (decode other).mapError DecodeError.anywhere =
        (decode source).mapError DecodeError.anywhere := by
  have depends : ∀ (other : Input) (text' : String), other.Offers text'.toUTF8.toList →
      text'.toList.filter isMark = text.toList.filter isMark →
      (decode other).mapError DecodeError.anywhere =
        (decode source).mapError DecodeError.anywhere := by
    intro other text' offers' same
    have signals : other.signals = source.signals := by
      rw [signals_of_text offers', signals_of_text offers, significantChars_eq_of_filter same]
    exact decode_of_signals signals
  refine ⟨map_char_significantChars _, Reader.items_of_text offers, depends, ?_⟩
  intro other commented offers' inserted
  exact depends other commented offers' inserted.filter_isMark

/-- An opcode that does not exist, with comments of characters of two, three and four bytes, two of
which are divided between deliveries: what is wrong with it is wrong without the comments. -/
theorem decode_of_text_divided :
    let divided : Input := ⟨[], [.data [0x20, 0xC2], .interruption,
      .data [0xA0, 0x09, 0xE2, 0x80, 0xA8, 0xE3, 0x80], .data [0x80, 0xF0, 0x9F, 0x98, 0x80, 0x09]]⟩
    (Reader.ofInput divided).items 4 = [.token .space, .token .tab, .token .tab, .finished] ∧
    (decode divided).mapError DecodeError.anywhere =
      .error ⟨.unknownOpcode .stack .tab, 3, 0, [.space, .tab, .tab]⟩ := by
  intro divided
  have offers : divided.Offers " \u00a0\t\u2028\u3000😀\t".toUTF8.toList :=
    ⟨by simp [Input.Reliable, divided], by rw [toList_toUTF8]; decide +kernel⟩
  have bare : (Input.ofText " \t\t").Offers " \t\t".toUTF8.toList :=
    ⟨Input.reliable_ofBytes _, Input.bytes_ofBytes _⟩
  have inserted : Commented " \t\t".toList " \u00a0\t\u2028\u3000😀\t".toList :=
    .keep ' ' (.insert rfl (.keep '\t' (.insert rfl (.insert rfl (.insert rfl (.keep '\t' .nil))))))
  obtain ⟨-, items, -, -⟩ := decode_of_text offers
  obtain ⟨-, -, -, commented⟩ := decode_of_text bare
  refine ⟨items 4, (commented _ _ offers inserted).trans ?_⟩
  decide +kernel

end Whitespace
