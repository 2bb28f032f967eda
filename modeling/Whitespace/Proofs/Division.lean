import Whitespace.Proofs.ErrorPrecision

/-!
# How the bytes of a source divide

The significant bytes of any source are spellings, one after another, and behind them nothing, or
the beginning of a spelling, or something that no program goes on with (`exists_division`).  What
the last two look like can be read off the opcode table and the grammar of operands; the conditions
in terms of what is read one token at a time say the same (`cutOff_iff`, `rejected_iff`).

## Main definitions

* `Unfinished word cause` — the tokens begin a spelling and end within it.
* `Malformed word cause` — up to the last of the tokens they begin a spelling, with it none.
* `Refused names word cause` — the tokens are malformed, or define one of these labels again.
* `Division bytes is read word verdict` — the bytes that are `read` spell some instructions and then
  `word`, with which the verdict falls.
-/

namespace Whitespace

open Instruction (IsSpelling)

/-- The tokens begin a spelling and end within it.  The cause tells in which part. -/
inductive Unfinished : List Token → DecodeError.Cause → Prop where
  | lead : Unfinished [.tab] (.incompleteOpcode none)
  | command {op : Opcode} {read more : List Token} (begins : op.command = read ++ more)
      (within : more ≠ []) : Unfinished (op.family.lead ++ read) (.incompleteOpcode op.family)
  | sign (op : NumberOp) : Unfinished (Opcode.number op).code (.unterminated .number)
  | digits (op : NumberOp) (negative : Bool) (bits : List Bool) :
      Unfinished ((Opcode.number op).code ++ Literal.sign negative :: bits.map Literal.digit)
        (.unterminated .number)
  | name (op : LabelOp) {read : List Token} (closed : .lineFeed ∉ read) :
      Unfinished ((Opcode.label op).code ++ read) (.unterminated .label)

/-- Up to the last token they begin a spelling, and with it none: no command of the family goes on
like this, or it is no sign. -/
inductive Malformed : List Token → DecodeError.Cause → Prop where
  | opcode {op : Opcode} {read more : List Token} {t : Token} (begins : op.command = read ++ more)
      (within : more ≠ [])
      (unknown : ∀ other : Opcode, other.family = op.family → ¬read ++ [t] <+: other.command) :
      Malformed (op.family.lead ++ (read ++ [t])) (.unknownOpcode op.family t)
  | sign (op : NumberOp) :
      Malformed ((Opcode.number op).code ++ [.lineFeed]) (.invalidSign .lineFeed)

/-- No program goes on with these tokens behind definitions of these labels. -/
inductive Refused (names : List Label) : List Token → DecodeError.Cause → Prop where
  | malformed {word : List Token} {cause : DecodeError.Cause} (h : Malformed word cause) :
      Refused names word cause
  | repeated {word : List Token} {name : Label} (spelled : IsSpelling (.label .define name) word)
      (known : name ∈ names) : Refused names word (.duplicateLabel name)

/-- What comes behind the words that are complete. -/
inductive Verdict where
  /-- No program goes on like this. -/
  | refused (cause : DecodeError.Cause)
  /-- An instruction begins; the cause is what is wrong if nothing follows. -/
  | unfinished (cause : DecodeError.Cause)
  /-- Nothing. -/
  | finished
  deriving DecidableEq, Repr

/-- A word behind definitions of some labels is what the verdict says.  It is refused at its last
token; else it goes up to the end of the bytes. -/
def Verdict.Fits (names : List Label) (word : List Token) (bytes read : List UInt8) :
    Verdict → Prop
  | refused cause => Refused names word cause ∧ EndsWithToken read
  | unfinished cause => Unfinished word cause ∧ read = bytes
  | finished => word = [] ∧ read = bytes

/-- **How some bytes divide**: those that are `read` spell some instructions, which define no label
twice, and behind them a word on which the verdict falls. -/
structure Division (bytes : List UInt8) (is : List Instruction) (read : List UInt8)
    (word : List Token) (verdict : Verdict) : Prop where
  begins : read <+: bytes
  spelled : ∃ words, List.Forall₂ IsSpelling is words ∧ significant read = words.flatten ++ word
  distinct : (definedLabels is).Nodup
  fits : verdict.Fits (definedLabels is) word bytes read

/-! ## Reading opcodes and operands -/

namespace Progress

variable {p q r : Progress} {word word' : List Token}

theorem Leads.append (first : p.Leads word q) (second : q.Leads word' r) :
    p.Leads (word ++ word') r := by
  induction first with
  | refl p => exact second
  | head fed later ih => exact .head fed (ih second)

theorem Leads.concat {t : Token} (h : p.Leads word q) (fed : q.feed t = .more r) :
    p.Leads (word ++ [t]) r :=
  h.append (.head fed (.refl r))

/-- No command of a family begins another. -/
theorem eq_of_command_begins {a b : Opcode} (family : a.family = b.family)
    (begins : a.command <+: b.command) : a = b := by
  have table : ∀ a ∈ Opcode.all, ∀ b ∈ Opcode.all, a.family = b.family →
      a.command <+: b.command → a = b := by
    decide +kernel
  exact table a (Opcode.mem_all a) b (Opcode.mem_all b) family begins

theorem leads_lead (family : Family) : start.Leads family.lead (.command family []) := by
  cases family with
  | stack | flow => exact .head rfl (.refl _)
  | arithmetic | heap | io => exact .head rfl (.head rfl (.refl _))

variable {op : Opcode} {read more : List Token}

/-- A command is not known before its last token. -/
theorem ofCommand?_eq_none (begins : op.command = read ++ more) (within : more ≠ []) :
    Opcode.ofCommand? op.family read = none := by
  rw [Opcode.ofCommand?, List.find?_eq_none]
  intro other member same
  have family := Opcode.mem_ofFamily.mp member
  have command : other.command = read := by simpa using same
  obtain rfl := eq_of_command_begins family ⟨more, by rw [command, begins]⟩
  rw [command] at begins
  exact within (List.self_eq_append_right.mp begins)

/-- Reading goes along a lead and the beginning of a command. -/
theorem leads_command (begins : op.command = read ++ more) (within : more ≠ []) :
    start.Leads (op.family.lead ++ read) (.command op.family read) := by
  induction read using List.reverseRecOn generalizing more with
  | nil =>
    rw [List.append_nil]
    exact leads_lead op.family
  | append_singleton read t ih =>
    have longer : op.command = read ++ t :: more := by simpa using begins
    rw [← List.append_assoc]
    apply (ih longer (List.cons_ne_nil t more)).concat
    have continues : Opcode.continues op.family (read ++ [t]) = true :=
      List.any_eq_true.mpr ⟨op, Opcode.mem_ofFamily.mpr rfl,
        List.isPrefixOf_iff_prefix.mpr ⟨more, begins.symm⟩⟩
    rw [feed, ofCommand?_eq_none begins within]
    exact if_pos continues

/-- Reading goes along an opcode, to its operand. -/
theorem leads_code (goes_on : ofOpcode op = .more q) : start.Leads op.code q := by
  have some_command : op.command ≠ [] := by
    have table : ∀ op ∈ Opcode.all, op.command ≠ [] := by decide
    exact table op (Opcode.mem_all op)
  obtain empty | ⟨read, t, command⟩ := List.eq_nil_or_concat' op.command
  · exact absurd empty some_command
  · have fed : (Progress.command op.family read).feed t = ofOpcode op := by
      rw [feed, ← command, Opcode.ofCommand?_command]
    rw [Opcode.code, command, ← List.append_assoc]
    exact (leads_command command (List.cons_ne_nil t [])).concat (fed.trans goes_on)

/-- Reading goes along digits. -/
theorem leads_digits (op : NumberOp) (negative : Bool) (bits : List Bool) (m : Int64) :
    (digits op negative m).Leads (bits.map Literal.digit)
      (digits op negative (bits.foldl Literal.shift m)) := by
  induction bits generalizing m with
  | nil => exact .refl _
  | cons bit bits ih =>
    cases bit with
    | false => exact .head rfl (ih _)
    | true => exact .head rfl (ih _)

/-- Reading goes along a label. -/
theorem leads_name (op : LabelOp) (before : Array Token) {read : List Token}
    (closed : .lineFeed ∉ read) :
    (name op before).Leads read (name op (before ++ read.toArray)) := by
  induction read generalizing before with
  | nil =>
    rw [Array.append_empty]
    exact .refl _
  | cons t read ih =>
    obtain ⟨other, closed⟩ := List.ne_and_not_mem_of_not_mem_cons closed
    have fed : (name op before).feed t = .more (name op (before.push t)) := by
      cases t with
      | space | tab => rfl
      | lineFeed => exact absurd rfl other
    have later := ih (before.push t) closed
    refine .head fed ?_
    simpa using later

/-- What has been read of a command is not all of it. -/
theorem Leads.exists_command {family : Family}
    (h : start.Leads word (.command family read)) :
    ∃ (op : Opcode) (more : List Token), op.family = family ∧ op.command = read ++ more ∧
      more ≠ [] := by
  have continues : Opcode.continues family read = true := h.opened (.inl rfl)
  have holds : (command family read).Holds word := h.holds (.lead [])
  obtain ⟨op, member, begins⟩ := List.any_eq_true.mp continues
  obtain ⟨more, command⟩ := List.isPrefixOf_iff_prefix.mp begins
  obtain rfl := Opcode.mem_ofFamily.mp member
  refine ⟨op, more, rfl, command.symm, ?_⟩
  rintro rfl
  cases holds with
  | command family read =>
    rw [List.append_nil] at command
    have reading := h.readFrom []
    rw [command, ← Opcode.code, readFrom_code] at reading
    have outcome := congrArg Reading.outcome reading
    cases op <;> cases outcome

end Progress

/-! ## The same in two ways -/

variable {word : List Token} {cause : DecodeError.Cause} {names : List Label}

open Progress

/-- **Tokens that end within an instruction** end within its opcode or its operand. -/
theorem cutOff_iff : Decoder.CutOff word cause ↔ Unfinished word cause := by
  constructor
  · rintro ⟨q, leads, unfinished⟩
    have opened := leads.opened (.inl rfl)
    have holds : q.Holds word := leads.holds (.lead [])
    cases holds with
    | lead =>
      obtain rfl | rfl := opened
      · cases unfinished
      · cases unfinished
        exact .lead
    | command family read =>
      cases unfinished
      obtain ⟨op, more, rfl, begins, within⟩ := leads.exists_command
      exact .command begins within
    | sign op =>
      cases unfinished
      exact .sign op
    | digits op negative bits =>
      cases unfinished
      exact .digits op negative bits
    | name op read closed =>
      cases unfinished
      exact .name op closed
  · intro unfinished
    cases unfinished with
    | lead => exact ⟨.lead [.tab], .head rfl (.refl _), rfl⟩
    | command begins within => exact ⟨_, leads_command begins within, rfl⟩
    | sign op => exact ⟨_, leads_code rfl, rfl⟩
    | digits op negative bits =>
      have sign : (Progress.sign op).Leads (Literal.sign negative :: bits.map Literal.digit)
          (digits op negative (bits.foldl Literal.shift 0)) := by
        cases negative with
        | false => exact .head rfl (leads_digits op false bits 0)
        | true => exact .head rfl (leads_digits op true bits 0)
      exact ⟨_, (leads_code rfl).append sign, rfl⟩
    | name op closed => exact ⟨_, (leads_code rfl).append (leads_name op #[] closed), rfl⟩

/-- A token is refused behind what has been read if it makes that malformed. -/
theorem malformed_iff :
    (∃ front q t, word = front ++ [t] ∧ start.Leads front q ∧ q.feed t = .malformed cause) ↔
      Malformed word cause := by
  constructor
  · rintro ⟨front, q, t, rfl, leads, fed⟩
    have holds : q.Holds front := leads.holds (.lead [])
    cases holds with
    | lead =>
      rw [feed] at fed
      split at fed <;> cases fed
    | command family read =>
      obtain ⟨op, more, rfl, begins, within⟩ := leads.exists_command
      rw [feed] at fed
      split at fed
      · next op _ => cases op <;> cases fed
      · split at fed
        · cases fed
        · next ends =>
          cases fed
          rw [List.append_assoc]
          refine .opcode begins within fun other family goes_on => ends ?_
          exact List.any_eq_true.mpr ⟨other, Opcode.mem_ofFamily.mpr family,
            List.isPrefixOf_iff_prefix.mpr goes_on⟩
    | sign op =>
      cases t <;> cases fed
      exact .sign op
    | digits op negative bits => cases t <;> cases fed
    | name op read closed => cases t <;> cases fed
  · intro malformed
    cases malformed with
    | @opcode op read more t begins within unknown =>
      refine ⟨op.family.lead ++ read, _, t, (List.append_assoc _ _ _).symm,
        leads_command begins within, ?_⟩
      have no_opcode : Opcode.ofCommand? op.family (read ++ [t]) = none := by
        rw [Opcode.ofCommand?, List.find?_eq_none]
        intro other member same
        have command : other.command = read ++ [t] := by simpa using same
        exact unknown other (Opcode.mem_ofFamily.mp member) (command ▸ List.prefix_refl _)
      have ends : ¬Opcode.continues op.family (read ++ [t]) = true := by
        intro goes_on
        obtain ⟨other, member, begins⟩ := List.any_eq_true.mp goes_on
        exact unknown other (Opcode.mem_ofFamily.mp member) (List.isPrefixOf_iff_prefix.mp begins)
      rw [feed, no_opcode]
      exact if_neg ends
    | sign op => exact ⟨_, _, .lineFeed, rfl, leads_code rfl, rfl⟩

/-- **Tokens that are rejected** are malformed or define a label again. -/
theorem rejected_iff : Decoder.Rejected names word cause ↔ Refused names word cause := by
  constructor
  · intro rejected
    cases rejected with
    | malformed leads fed => exact .malformed (malformed_iff.mp ⟨_, _, _, rfl, leads, fed⟩)
    | repeated spelled defined known =>
      obtain rfl := Instruction.defined?_eq_some_iff.mp defined
      exact .repeated spelled known
  · intro refused
    cases refused with
    | malformed malformed =>
      obtain ⟨front, q, t, rfl, leads, fed⟩ := malformed_iff.mpr malformed
      exact .malformed leads fed
    | repeated spelled known => exact .repeated spelled rfl known

/-- Which labels have been defined matters, not in which order. -/
theorem Refused.reverse (h : Refused names word cause) : Refused names.reverse word cause := by
  cases h with
  | malformed malformed => exact .malformed malformed
  | repeated spelled known => exact .repeated spelled (List.mem_reverse.mpr known)

/-! ## All bytes -/

/-- **Any bytes divide** into words that are complete and something that is not. -/
theorem exists_division (bytes : List UInt8) :
    ∃ is read word verdict, Division bytes is read word verdict := by
  have reliable := Input.reliable_ofBytes bytes
  cases result : decode (.ofBytes bytes) with
  | ok decoding =>
    have decoded : (decode (.ofBytes bytes)).map Decoding.instructions =
        .ok decoding.instructions := by
      rw [result]
      rfl
    obtain ⟨⟨words, spelled, flat⟩, distinct⟩ := words_of_decode reliable decoded
    rw [Input.bytes_ofBytes] at flat
    exact ⟨decoding.instructions, bytes, [], .finished, List.prefix_refl _,
      ⟨words, spelled, by rw [flat, List.append_nil]⟩, distinct, rfl, rfl⟩
  | error e =>
    obtain ⟨is, words, d, read, -, -, met, why⟩ := metBehind_of_decode reliable result
    rw [Input.bytes_ofBytes] at met
    have spelled : ∃ words, List.Forall₂ IsSpelling is words ∧
        significant read = words.flatten ++ e.context :=
      ⟨words, met.spelled, met.tokens⟩
    obtain cut | rejected := why
    · exact ⟨is, read, e.context, .unfinished e.cause, met.begins, spelled, met.distinct,
        cutOff_iff.mp cut, cut.eq_source met.shown⟩
    · exact ⟨is, read, e.context, .refused e.cause, met.begins, spelled, met.distinct,
        List.reverse_reverse (definedLabels is) ▸ (rejected_iff.mp rejected).reverse,
        rejected.endsWithToken met.shown⟩

end Whitespace
