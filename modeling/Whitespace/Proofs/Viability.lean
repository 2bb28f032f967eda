import Mathlib.Data.Set.Finite.Basic
import Whitespace.Proofs.Grammar

/-!
# What can still become an instruction

As long as reading goes on, some instruction begins with the tokens that have been read; if it
defines a label, that may be any but finitely many (`Progress.Leads.viable`).  So the prefix tree of
the opcodes has no dead branch, and reading fails for one of two reasons only
(`Progress.readFrom_cases`): the tokens end, or one comes with which no instruction goes on.

## Main definitions

* `Instruction.Viable avoid word` — an instruction begins with these tokens and defines none of
  these labels.
* `Progress.Leads p word q` — the tokens are read one after another, from `p` to `q`.
* `Progress.Open p` — some opcode goes on from `p`.
-/

namespace Whitespace

namespace Instruction

/-- Some instruction begins with these tokens and defines none of these labels. -/
def Viable (avoid : List Label) (word : List Token) : Prop :=
  ∃ i more, IsSpelling i (word ++ more) ∧ ∀ name, i.defined? = some name → name ∉ avoid

variable {avoid : List Label}

/-- What an instruction begins with, it begins with a part of. -/
theorem Viable.of_append {word more : List Token} (h : Viable avoid (word ++ more)) :
    Viable avoid word := by
  obtain ⟨i, later, spelled, fresh⟩ := h
  rw [List.append_assoc] at spelled
  exact ⟨i, more ++ later, spelled, fresh⟩

/-- A label can be made different from finitely many by spaces at its end. -/
theorem exists_fresh (avoid : List Label) (read : List Token) :
    ∃ k, Label.ofTokens (read ++ List.replicate k .space) ∉ avoid := by
  have different : Function.Injective fun k =>
      Label.ofTokens (read ++ List.replicate k .space) := by
    intro j k same
    have lengths := congrArg (fun l : Label => l.chars.length) same
    simpa [Label.ofTokens] using lengths
  obtain ⟨_, ⟨k, rfl⟩, fresh⟩ :=
    (Set.infinite_range_of_injective different).exists_notMem_finset avoid.toFinset
  exact ⟨k, fun known => fresh (List.mem_toFinset.mpr known)⟩

/-- An opcode and any beginning of a label go on to an instruction. -/
theorem viable_name (op : LabelOp) {read : List Token} (closed : .lineFeed ∉ read) :
    Viable avoid ((Opcode.label op).code ++ read) := by
  obtain ⟨k, fresh⟩ := exists_fresh avoid read
  have closed : Token.lineFeed ∉ read ++ List.replicate k .space := by
    simp [closed]
  have spelled := isSpelling_label op _ closed
  refine ⟨_, List.replicate k .space ++ [.lineFeed], by simpa using spelled, ?_⟩
  intro name defined
  rw [defined?_eq_some_iff] at defined
  cases defined
  exact fresh

/-- An opcode, a sign and any digits go on to an instruction. -/
theorem viable_digits (op : NumberOp) (negative : Bool) (bits : List Bool) :
    Viable avoid
      ((Opcode.number op).code ++ Literal.sign negative :: bits.map Literal.digit) := by
  have spelled := isSpelling_number op negative bits
  exact ⟨_, [.lineFeed], by simpa [Literal.spell] using spelled,
    fun name defined => by cases defined⟩

/-- **Every opcode goes on to an instruction.** -/
theorem viable_code (op : Opcode) : Viable avoid op.code := by
  cases op with
  | number op => exact (viable_digits op false []).of_append
  | label op => exact (viable_name op List.not_mem_nil).of_append
  | plain op =>
    have spelled := isSpelling_plain op
    rw [← List.append_nil (Opcode.code _)] at spelled
    refine ⟨_, [], spelled, fun name defined => ?_⟩
    cases defined?_eq_some_iff.mp defined

end Instruction

namespace Progress

/-! ## Reading on -/

/-- Tokens are read one after another, and the instruction is still unfinished. -/
inductive Leads : Progress → List Token → Progress → Prop where
  | refl (p : Progress) : Leads p [] p
  | head {p q r : Progress} {t : Token} {word : List Token} (fed : p.feed t = .more q)
      (later : Leads q word r) : Leads p (t :: word) r

/-- Some opcode goes on from here. -/
def Open : Progress → Prop
  | lead read => read = [] ∨ read = [.tab]
  | command family read => Opcode.continues family read = true
  | sign _ | digits _ _ _ | name _ _ => True

variable {p q : Progress} {word : List Token}

/-- Every family has commands. -/
theorem open_command (family : Family) : (command family []).Open := by
  rw [Open]
  cases family <;> decide

/-- One more token that is read leaves some opcode. -/
theorem Open.feed {t : Token} (h : p.Open) (fed : p.feed t = .more q) : q.Open := by
  cases p with
  | lead read =>
    obtain rfl | rfl := h
    · cases t with
      | space | lineFeed =>
        cases fed
        exact open_command _
      | tab =>
        cases fed
        exact .inr rfl
    · cases t with
      | space | tab | lineFeed =>
        cases fed
        exact open_command _
  | command family read =>
    rw [Progress.feed] at fed
    split at fed
    · next op _ =>
      cases op <;> cases fed
      · trivial
      · trivial
    · split at fed
      · next continues =>
        cases fed
        exact continues
      · cases fed
  | sign op =>
    cases t <;> cases fed
    · trivial
    · trivial
  | digits op negative m =>
    cases t <;> cases fed
    · trivial
    · trivial
  | name op read =>
    cases t <;> cases fed
    · trivial
    · trivial

theorem Leads.opened (h : p.Leads word q) (opened : p.Open) : q.Open := by
  induction h with
  | refl p => exact opened
  | head fed later ih => exact ih (opened.feed fed)

/-- What is read on is spelled on. -/
theorem Leads.holds {before : List Token} (h : p.Leads word q) (holds : p.Holds before) :
    q.Holds (before ++ word) := by
  induction h generalizing before with
  | refl p => rwa [List.append_nil]
  | @head p q r t word fed later ih =>
    have one := holds.feed t
    rw [fed] at one
    rw [List.append_cons]
    exact ih one

/-- Reading goes along tokens that are read. -/
theorem Leads.readFrom (h : p.Leads word q) (rest : List Signal) :
    p.readFrom (word.map Signal.token ++ rest) = (q.readFrom rest).after word := by
  induction h with
  | refl p => rfl
  | head fed later ih =>
    rw [List.map_cons, List.cons_append, readFrom_token, fed, Advance.readFrom, ih]
    rfl

/-- **Where some opcode goes on, an instruction begins with what has been read.** -/
theorem Open.viable (avoid : List Label) (h : p.Open) (holds : p.Holds word) :
    Instruction.Viable avoid word := by
  cases holds with
  | lead =>
    -- Nothing and a lone tab both begin the opcode of a store.
    have store : Instruction.Viable avoid ([.tab] ++ [.tab, .space]) :=
      Instruction.viable_code (.plain .store)
    obtain rfl | rfl := h
    · exact Instruction.Viable.of_append (List.nil_append _ ▸ store)
    · exact store.of_append
  | command family read =>
    obtain ⟨op, member, begins⟩ := List.any_eq_true.mp h
    obtain ⟨more, command⟩ := List.isPrefixOf_iff_prefix.mp begins
    have code : op.code = (family.lead ++ read) ++ more := by
      rw [Opcode.code, Opcode.mem_ofFamily.mp member, List.append_assoc, command]
    exact (code ▸ Instruction.viable_code op).of_append
  | sign op => exact Instruction.viable_code _
  | digits op negative bits => exact Instruction.viable_digits op negative bits
  | name op read closed => exact Instruction.viable_name op closed

/-- **As long as reading goes on, some instruction begins with what has been read.** -/
theorem Leads.viable (avoid : List Label) (h : start.Leads word q) :
    Instruction.Viable avoid word :=
  (h.opened (.inl rfl)).viable avoid (h.holds (.lead []))

/-! ## How reading ends -/

/-- **How reading tokens ends**: with the tokens, or at the one that finishes the instruction or
that goes with none. -/
theorem readFrom_cases (p : Progress) (tokens : List Token) :
    (∃ q, p.Leads tokens q ∧ p.readFrom (tokens.map Signal.token) = ⟨q.ending, tokens, []⟩) ∨
      ∃ front t more q, tokens = front ++ t :: more ∧ p.Leads front q ∧
        ((∃ i, q.feed t = .complete i ∧ p.readFrom (tokens.map Signal.token) =
            ⟨.complete i, front ++ [t], more.map Signal.token⟩) ∨
          ∃ cause, q.feed t = .malformed cause ∧ p.readFrom (tokens.map Signal.token) =
            ⟨.failed cause, front ++ [t], more.map Signal.token⟩) := by
  induction tokens generalizing p with
  | nil => exact .inl ⟨p, .refl p, rfl⟩
  | cons t tokens ih =>
    rw [List.map_cons, readFrom_token]
    cases fed : p.feed t with
    | complete i => exact .inr ⟨[], t, tokens, p, rfl, .refl p, .inl ⟨i, fed, rfl⟩⟩
    | malformed cause => exact .inr ⟨[], t, tokens, p, rfl, .refl p, .inr ⟨cause, fed, rfl⟩⟩
    | more p' =>
      rw [Advance.readFrom]
      obtain ⟨q, leads, reading⟩ | ⟨front, last, more, q, rfl, leads, ended⟩ := ih p'
      · exact .inl ⟨q, .head fed leads, by rw [reading]; rfl⟩
      · refine .inr ⟨t :: front, last, more, q, rfl, .head fed leads, ?_⟩
        obtain ⟨i, complete, reading⟩ | ⟨cause, malformed, reading⟩ := ended
        · exact .inl ⟨i, complete, by rw [reading]; rfl⟩
        · exact .inr ⟨cause, malformed, by rw [reading]; rfl⟩

end Progress

end Whitespace
