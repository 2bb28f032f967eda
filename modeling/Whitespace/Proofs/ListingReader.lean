import Mathlib.Data.List.TakeWhile
import Whitespace.Interpreter
import Whitespace.Proofs.RoundTrip
import Whitespace.Proofs.TextRoundTrip

/-!
# Reading a listing back

Nothing is lost in a listing.  A line tells its instruction (`Instruction.ofLine?_listing`): the
word before the first space is the mnemonic of one opcode only, and a number or a label is read from
what stands behind.  A listing falls into such lines, because nothing in a line is a line feed
(`lists_listing`).

This needs labels over spaces and tabs, for a listing writes `s` both for a space and for that
letter.  All labels that are decoded are of this kind (`blank_of_decode`).

## Main definitions

* `Instruction.ofLine?` — the instruction that a line of a listing tells.
* `Lists text is` — the text has a line for each instruction, which tells it.
-/

namespace Whitespace

/-! ## Labels -/

namespace Label

/-- A label consists of spaces and tabs. -/
def Blank (l : Label) : Prop :=
  ∀ c ∈ l.chars, c = ' ' ∨ c = '\t'

/-- A letter stands for the space or the tab for which it is written. -/
theorem ofLetter?_eq_some_iff {c d : Char} :
    ofLetter? c = some d ↔ (d = ' ' ∨ d = '\t') ∧ letter d = c := by
  constructor
  · intro stands
    unfold ofLetter? at stands
    split at stands <;> cases stands <;> decide
  · rintro ⟨blank, rfl⟩
    exact ofLetter?_letter blank

theorem ofLetter?_eq_none_iff {c : Char} : ofLetter? c = none ↔ c ≠ 's' ∧ c ≠ 't' := by
  unfold ofLetter?
  split <;> simp_all

theorem mapM_ofLetter?_eq_some_iff {cs ds : List Char} :
    cs.mapM ofLetter? = some ds ↔ (∀ d ∈ ds, d = ' ' ∨ d = '\t') ∧ ds.map letter = cs := by
  induction cs generalizing ds with
  | nil =>
    cases ds with
    | nil => simp
    | cons d ds => simp
  | cons c cs ih =>
    simp only [List.mapM_cons, Option.bind_eq_bind, Option.bind_eq_some_iff, Option.pure_def,
      Option.some.injEq, ofLetter?_eq_some_iff, ih]
    constructor
    · rintro ⟨d, ⟨here, rfl⟩, ds, ⟨later, rfl⟩, rfl⟩
      exact ⟨List.forall_mem_cons.mpr ⟨here, later⟩, rfl⟩
    · rintro ⟨blank, same⟩
      obtain ⟨d, ds, rfl, rfl, rfl⟩ := List.map_eq_cons_iff.mp same
      obtain ⟨here, later⟩ := List.forall_mem_cons.mp blank
      exact ⟨d, ⟨here, rfl⟩, ds, ⟨later, rfl⟩, rfl⟩

theorem mapM_ofLetter?_eq_none_iff {cs : List Char} :
    cs.mapM ofLetter? = none ↔ ∃ c ∈ cs, c ≠ 's' ∧ c ≠ 't' := by
  induction cs with
  | nil => simp
  | cons c cs ih =>
    cases stands : ofLetter? c with
    | none => simp [stands, ofLetter?_eq_none_iff.mp stands]
    | some d =>
      have letter : ¬(c ≠ 's' ∧ c ≠ 't') := fun other => by
        rw [ofLetter?_eq_none_iff.mpr other] at stands
        cases stands
      rw [List.exists_mem_cons_iff, or_iff_right letter, ← ih, List.mapM_cons, stands]
      cases cs.mapM ofLetter? <;> simp

/-- **A label is read from its mnemonic**, and no other text is the mnemonic of a label over spaces
and tabs. -/
theorem ofMnemonic?_eq_some_iff {text : String} {l : Label} :
    ofMnemonic? text = some l ↔ l.Blank ∧ l.mnemonic = text := by
  rcases l with ⟨cs⟩
  simp only [ofMnemonic?, Option.map_eq_some_iff, mk.injEq, exists_eq_right,
    mapM_ofLetter?_eq_some_iff, Blank, mnemonic, ← String.toList_inj, String.toList_ofList]

/-- **No label is read** from a text with any other letter. -/
theorem ofMnemonic?_eq_none_iff {text : String} :
    ofMnemonic? text = none ↔ ∃ c ∈ text.toList, c ≠ 's' ∧ c ≠ 't' := by
  rw [ofMnemonic?, Option.map_eq_none_iff, mapM_ofLetter?_eq_none_iff]

end Label

/-! ## Lines -/

/-- The opcode with this mnemonic. -/
def Opcode.ofMnemonic? (word : List Char) : Option Opcode :=
  all.find? fun op => op.mnemonic.toList == word

/-- A mnemonic belongs to one opcode. -/
theorem Opcode.ofMnemonic?_mnemonic (op : Opcode) : ofMnemonic? op.mnemonic.toList = some op := by
  have table : ∀ op ∈ all, ofMnemonic? op.mnemonic.toList = some op := by decide +kernel
  exact table op (mem_all op)

/-- A mnemonic has no spaces and no line feeds. -/
theorem Opcode.ne_of_mem_mnemonic (op : Opcode) :
    ∀ c ∈ op.mnemonic.toList, c ≠ ' ' ∧ c ≠ '\n' := by
  have table : ∀ op ∈ all, op.mnemonic.toList.all (fun c => c != ' ' && c != '\n') = true := by
    decide +kernel
  have whole := List.all_eq_true.mp (table op (mem_all op))
  intro c member
  simpa using whole c member

namespace Instruction

/-- The instruction that a line of a listing tells: the word up to the first space is its mnemonic,
and its operand stands behind the space. -/
def ofLine? (line : List Char) : Option Instruction :=
  match Opcode.ofMnemonic? (line.takeWhile (· != ' ')), line.dropWhile (· != ' ') with
  | some (.number op), ' ' :: operand => (Decimal.word? operand).map (number op)
  | some (.label op), ' ' :: operand => (Label.ofMnemonic? (.ofList operand)).map (label op)
  | some (.plain op), [] => some (plain op)
  | _, _ => none

theorem ne_space_of_mem (op : Opcode) : ∀ c ∈ op.mnemonic.toList, (c != ' ') = true := by
  intro c member
  simpa using (op.ne_of_mem_mnemonic c member).1

/-- In front of a space, a mnemonic is the word up to it. -/
theorem split_mnemonic (op : Opcode) (operand : List Char) :
    (op.mnemonic.toList ++ ' ' :: operand).takeWhile (· != ' ') = op.mnemonic.toList ∧
      (op.mnemonic.toList ++ ' ' :: operand).dropWhile (· != ' ') = ' ' :: operand := by
  have word := ne_space_of_mem op
  rw [List.takeWhile_append_of_pos word, List.dropWhile_append_of_pos word]
  simp

/-- Alone, a mnemonic is the whole line. -/
theorem split_alone (op : Opcode) :
    op.mnemonic.toList.takeWhile (· != ' ') = op.mnemonic.toList ∧
      op.mnemonic.toList.dropWhile (· != ' ') = [] := by
  have word := ne_space_of_mem op
  exact ⟨List.takeWhile_eq_self_iff.mpr word, List.dropWhile_eq_nil_iff.mpr word⟩

theorem listing_number (op : NumberOp) (value : Int64) :
    (number op value).listing.toList =
      (Opcode.number op).mnemonic.toList ++ ' ' :: Decimal.render value.toInt := by
  simp [listing, opcode, Decimal.text]

theorem listing_label (op : LabelOp) (name : Label) :
    (label op name).listing.toList =
      (Opcode.label op).mnemonic.toList ++ ' ' :: name.mnemonic.toList := by
  simp [listing, opcode]

theorem listing_plain (op : PlainOp) : (plain op).listing = (Opcode.plain op).mnemonic := rfl

variable {i : Instruction}

/-- **A line tells its instruction.** -/
theorem ofLine?_listing (blank : i.Blank) : ofLine? i.listing.toList = some i := by
  cases i with
  | number op value =>
    obtain ⟨word, rest⟩ := split_mnemonic (.number op) (Decimal.render value.toInt)
    rw [ofLine?, listing_number, word, rest, Opcode.ofMnemonic?_mnemonic]
    simp only [Decimal.word?_render, Option.map_some]
  | label op name =>
    obtain ⟨word, rest⟩ := split_mnemonic (.label op) name.mnemonic.toList
    have back : Label.ofMnemonic? name.mnemonic = some name :=
      Label.ofMnemonic?_eq_some_iff.mpr ⟨blank op name rfl, rfl⟩
    rw [ofLine?, listing_label, word, rest, Opcode.ofMnemonic?_mnemonic]
    simp only [String.ofList_toList, back, Option.map_some]
  | plain op =>
    obtain ⟨word, rest⟩ := split_alone (.plain op)
    rw [ofLine?, listing_plain, word, rest, Opcode.ofMnemonic?_mnemonic]

/-- Nothing in a line is a line feed. -/
theorem lineFeed_notMem_listing (blank : i.Blank) : '\n' ∉ i.listing.toList := by
  have word : ∀ op : Opcode, '\n' ∉ op.mnemonic.toList := fun op member =>
    (op.ne_of_mem_mnemonic '\n' member).2 rfl
  cases i with
  | number op value =>
    have digits : '\n' ∉ Decimal.render value.toInt := by
      intro member
      obtain sign | digit := Decimal.mem_render member
      · cases sign
      · cases digit
    simp [listing_number, word, digits]
  | label op name =>
    have letters : '\n' ∉ name.mnemonic.toList := by
      intro member
      rw [Label.mnemonic, String.toList_ofList] at member
      obtain ⟨c, occurs, same⟩ := List.mem_map.mp member
      obtain rfl | rfl := blank op name rfl c occurs
      · cases same
      · cases same
    simp [listing_label, word, letters]
  | plain op =>
    rw [listing_plain]
    exact word _

end Instruction

/-! ## Listings -/

/-- The lines of a text, without the line feeds that close them. -/
def lines (text : List Char) : List (List Char) :=
  (text.splitOn '\n').dropLast

/-- A text that has a line for each instruction, closed by a line feed and with no other in it,
which is read back as the instruction. -/
structure Lists (text : String) (is : List Instruction) : Prop where
  closed : (lines text.toList).flatMap (· ++ ['\n']) = text.toList
  one_each : (lines text.toList).length = is.length
  single : ∀ line ∈ lines text.toList, '\n' ∉ line
  read : (lines text.toList).mapM Instruction.ofLine? = some is

/-- The first line of a text goes up to the first line feed. -/
theorem lines_append {line : List Char} (single : '\n' ∉ line) (text : List Char) :
    lines (line ++ '\n' :: text) = line :: lines text := by
  have inside : ∀ c ∈ line, (c == '\n') = false := by
    intro c member
    exact beq_eq_false_iff_ne.mpr fun same => single (same ▸ member)
  rw [lines, List.splitOn_eq_splitOnP, List.splitOnP_append_cons_of_forall_mem inside _ rfl,
    List.dropLast_cons_of_ne_nil (List.splitOnP_ne_nil _ _)]
  rfl

/-- **The lines of a listing** are those of its instructions. -/
theorem lines_listing {is : List Instruction} (blank : ∀ i ∈ is, i.Blank) :
    lines (listing is).toList = is.map fun i => i.listing.toList := by
  induction is with
  | nil => rfl
  | cons i is ih =>
    obtain ⟨here, later⟩ := List.forall_mem_cons.mp blank
    have split : (listing (i :: is)).toList = i.listing.toList ++ '\n' :: (listing is).toList := by
      simp [listing]
    rw [split, lines_append (Instruction.lineFeed_notMem_listing here), ih later, List.map_cons]

/-- Lines that are read one by one. -/
theorem mapM_ofLine?_listing {is : List Instruction} (blank : ∀ i ∈ is, i.Blank) :
    (is.map fun i => i.listing.toList).mapM Instruction.ofLine? = some is := by
  induction is with
  | nil => rfl
  | cons i is ih =>
    obtain ⟨here, later⟩ := List.forall_mem_cons.mp blank
    rw [List.map_cons, List.mapM_cons, Instruction.ofLine?_listing here, ih later]
    rfl

/-- **A listing tells its instructions**, if their labels consist of spaces and tabs. -/
theorem lists_listing {is : List Instruction} (blank : ∀ i ∈ is, i.Blank) :
    Lists (listing is) is := by
  have split := lines_listing blank
  refine ⟨?_, ?_, ?_, ?_⟩ <;> rw [split]
  · simp [listing, List.flatMap_map]
  · exact List.length_map _
  · rw [List.forall_mem_map]
    exact fun i member => Instruction.lineFeed_notMem_listing (blank i member)
  · exact mapM_ofLine?_listing blank

/-- A text tells one program. -/
theorem Lists.unique {text : String} {is js : List Instruction} (h : Lists text is)
    (h' : Lists text js) : is = js := by
  have same := h.read.symm.trans h'.read
  exact Option.some.inj same

/-! ## What is decoded -/

/-- The label that is spelled consists of spaces and tabs. -/
theorem Instruction.IsSpelling.blank {i : Instruction} {word : List Token}
    (spelled : i.IsSpelling word) : i.Blank := by
  cases spelled with
  | number op negative bits =>
    intro op name wrong
    cases wrong
  | label op name closed =>
    intro op' name' same c member
    cases same
    obtain ⟨t, occurs, rfl⟩ := List.mem_map.mp member
    cases t with
    | space => exact .inl rfl
    | tab => exact .inr rfl
    | lineFeed => exact absurd occurs closed
  | plain op =>
    intro op name wrong
    cases wrong

variable {source : Input} {is : List Instruction}

/-- So do all labels of instructions that are spelled. -/
theorem blank_of_spelled {words : List (List Token)}
    (spelled : List.Forall₂ Instruction.IsSpelling is words) : ∀ i ∈ is, i.Blank := by
  induction spelled with
  | nil => exact List.forall_mem_nil _
  | cons here later ih => exact List.forall_mem_cons.mpr ⟨here.blank, ih⟩

/-- **All labels that are decoded** consist of spaces and tabs. -/
theorem blank_of_decode (decoded : (decode source).map Decoding.instructions = .ok is) :
    ∀ i ∈ is, i.Blank := by
  obtain ⟨d, d', returns, -⟩ := returns_of_decode decoded
  obtain ⟨words, spelled, -⟩ := returns.words rfl List.nodup_nil
  exact blank_of_spelled spelled

/-- A source that is decoded is listed. -/
theorem disassemble_of_decode_ok (decoded : (decode source).map Decoding.instructions = .ok is) :
    (disassemble source).result = .ok (listing is) := by
  cases read : decode source with
  | error e =>
    rw [read] at decoded
    cases decoded
  | ok decoding =>
    rw [read] at decoded
    cases decoded
    simp only [disassemble, read]

/-- **Nothing is lost in a listing.**  Sources that are decoded have the same listing if and only if
they have the same instructions.  The listing has a line for each instruction, which is read back as
it; so has the listing of any program whose labels consist of spaces and tabs.  Such labels and the
texts over `s` and `t` stand for each other, and no other text stands for a label. -/
theorem disassemble_lossless :
    (∀ (a b : Input) (is js : List Instruction),
      (decode a).map Decoding.instructions = .ok is →
      (decode b).map Decoding.instructions = .ok js →
      ((disassemble a).result = (disassemble b).result ↔ is = js)) ∧
    (∀ (source : Input) (is : List Instruction),
      (decode source).map Decoding.instructions = .ok is →
      ∃ text, (disassemble source).result = .ok text ∧ Lists text is) ∧
    (∀ is : List Instruction, (∀ i ∈ is, i.Blank) → Lists (listing is) is) ∧
    (∀ (text : String) (l : Label),
      Label.ofMnemonic? text = some l ↔ l.Blank ∧ l.mnemonic = text) ∧
    ∀ text : String, Label.ofMnemonic? text = none ↔ ∃ c ∈ text.toList, c ≠ 's' ∧ c ≠ 't' := by
  refine ⟨fun a b is js decoded decoded' => ?_, fun source is decoded => ?_,
    fun is => lists_listing, fun text l => Label.ofMnemonic?_eq_some_iff,
    fun text => Label.ofMnemonic?_eq_none_iff⟩
  · have lists := lists_listing (blank_of_decode decoded)
    have lists' := lists_listing (blank_of_decode decoded')
    rw [disassemble_of_decode_ok decoded, disassemble_of_decode_ok decoded']
    constructor
    · intro same
      rw [← Except.ok.inj same] at lists'
      exact lists.unique lists'
    · intro same
      rw [same]
  · exact ⟨_, disassemble_of_decode_ok decoded, lists_listing (blank_of_decode decoded)⟩

/-- Jumps to different labels are listed differently. -/
theorem disassemble_lossless_jump :
    (disassemble (.ofBytes [0x0A, 0x20, 0x0A, 0x20, 0x0A])).result ≠
      (disassemble (.ofBytes [0x0A, 0x20, 0x0A, 0x09, 0x0A])).result := by
  have jump : ∀ t : Token, t ≠ .lineFeed → List.Forall₂ Instruction.IsSpelling
      [.label .jump (.ofTokens [t])] [[.lineFeed, .space, .lineFeed, t, .lineFeed]] :=
    fun t blank => .cons (.label .jump [t] (by simpa using blank.symm)) .nil
  have decoded := @decode_of_words (.ofBytes [0x0A, 0x20, 0x0A, 0x20, 0x0A]) _ _
    (Input.reliable_ofBytes _) (jump .space (by decide)) rfl List.nodup_nil
  have decoded' := @decode_of_words (.ofBytes [0x0A, 0x20, 0x0A, 0x09, 0x0A]) _ _
    (Input.reliable_ofBytes _) (jump .tab (by decide)) rfl List.nodup_nil
  intro same
  have instructions := (disassemble_lossless.1 _ _ _ _ decoded decoded').mp same
  exact absurd instructions (by decide)

end Whitespace
