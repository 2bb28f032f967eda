import Whitespace.Instruction.Code

/-!
# The spellings of an instruction

`IsSpelling` is the grammar of sources, with its table of opcodes, `Opcode.spelling`.  An
instruction with a number has many spellings, since a literal may begin with zeros and may have more
than 64 digits; any other instruction that a source can hold has one.

The grammar does not know how sources are written or read.  Writing puts the codes of opcodes
together from families and commands, which gives those of the table (`Opcode.code_eq_spelling`).  So
the canonical source of an instruction is one of its spellings: `isSpelling_encode` says so for a
number and `isSpelling_tokens` for a label, of which only the spaces and tabs count.
-/

namespace Whitespace

/-- The tokens that a label over spaces and tabs is spelled with; other characters are left out. -/
def Label.tokens (l : Label) : List Token :=
  l.chars.filterMap fun c => if c = ' ' then some .space else if c = '\t' then some .tab else none

theorem Label.lineFeed_notMem_tokens (l : Label) : Token.lineFeed ∉ l.tokens := by
  simp only [tokens, List.mem_filterMap, not_exists, not_and]
  intro c _
  split
  · simp
  · split <;> simp

/-- The tokens of a label over spaces and tabs spell that label. -/
theorem Label.ofTokens_tokens {l : Label} (blank : ∀ c ∈ l.chars, c = ' ' ∨ c = '\t') :
    ofTokens l.tokens = l := by
  rcases l with ⟨cs⟩
  induction cs with
  | nil => rfl
  | cons c cs ih =>
    have rest := ih fun c h => blank c (List.mem_cons_of_mem _ h)
    rcases blank c List.mem_cons_self with rfl | rfl <;>
      simpa [ofTokens, tokens, Token.char] using rest

namespace Opcode

/-- The table of opcodes, family by family: the tokens that each is spelled with. -/
def spelling : Opcode → List Token
  | number .push => [.space, .space]
  | plain .duplicate => [.space, .lineFeed, .space]
  | plain .swap => [.space, .lineFeed, .tab]
  | plain .discard => [.space, .lineFeed, .lineFeed]
  | number .copy => [.space, .tab, .space]
  | number .slide => [.space, .tab, .lineFeed]
  | plain (.calculate .add) => [.tab, .space, .space, .space]
  | plain (.calculate .subtract) => [.tab, .space, .space, .tab]
  | plain (.calculate .multiply) => [.tab, .space, .space, .lineFeed]
  | plain (.calculate .divide) => [.tab, .space, .tab, .space]
  | plain (.calculate .modulo) => [.tab, .space, .tab, .tab]
  | plain .store => [.tab, .tab, .space]
  | plain .load => [.tab, .tab, .tab]
  | plain (.print .character) => [.tab, .lineFeed, .space, .space]
  | plain (.print .number) => [.tab, .lineFeed, .space, .tab]
  | plain (.read .character) => [.tab, .lineFeed, .tab, .space]
  | plain (.read .number) => [.tab, .lineFeed, .tab, .tab]
  | label .define => [.lineFeed, .space, .space]
  | label .call => [.lineFeed, .space, .tab]
  | label .jump => [.lineFeed, .space, .lineFeed]
  | label (.jumpIf .zero) => [.lineFeed, .tab, .space]
  | label (.jumpIf .negative) => [.lineFeed, .tab, .tab]
  | plain .ret => [.lineFeed, .tab, .lineFeed]
  | plain .stop => [.lineFeed, .lineFeed, .lineFeed]

/-- **The codes that are written are those of the table.** -/
theorem code_eq_spelling (op : Opcode) : op.code = op.spelling := by
  have table : ∀ op ∈ all, op.code = op.spelling := by decide
  exact table op (mem_all op)

end Opcode

namespace Instruction

/-- The tokens spell the instruction. -/
inductive IsSpelling : Instruction → List Token → Prop where
  | number (op : NumberOp) (negative : Bool) (bits : List Bool) :
      IsSpelling (.number op (.ofInt (Literal.value negative bits)))
        ((Opcode.number op).spelling ++ Literal.spell negative bits)
  | label (op : LabelOp) (name : List Token) (closed : .lineFeed ∉ name) :
      IsSpelling (.label op (.ofTokens name)) ((Opcode.label op).spelling ++ (name ++ [.lineFeed]))
  | plain (op : PlainOp) :
      IsSpelling (.plain op) (Opcode.plain op).spelling

/-! The code of an opcode begins its spellings. -/

theorem isSpelling_number (op : NumberOp) (negative : Bool) (bits : List Bool) :
    IsSpelling (.number op (.ofInt (Literal.value negative bits)))
      ((Opcode.number op).code ++ Literal.spell negative bits) := by
  rw [Opcode.code_eq_spelling]
  exact .number op negative bits

theorem isSpelling_label (op : LabelOp) (name : List Token) (closed : .lineFeed ∉ name) :
    IsSpelling (.label op (.ofTokens name)) ((Opcode.label op).code ++ (name ++ [.lineFeed])) := by
  rw [Opcode.code_eq_spelling]
  exact .label op name closed

theorem isSpelling_plain (op : PlainOp) : IsSpelling (.plain op) (Opcode.plain op).code := by
  rw [Opcode.code_eq_spelling]
  exact .plain op

/-- The shortest spelling of a number is one of its spellings. -/
theorem isSpelling_encode (op : NumberOp) (v : Int64) :
    IsSpelling (.number op v) ((Opcode.number op).code ++ Literal.encode v) := by
  have spelled := isSpelling_number op (v < 0) (Literal.digits v.toInt.natAbs)
  have value : Int64.ofInt (Literal.value (v < 0) (Literal.digits v.toInt.natAbs)) = v := by
    simp only [Int64.lt_iff_toInt_lt, Int64.toInt_zero, Literal.value_digits, Int64.ofInt_toInt]
  rwa [value] at spelled

/-- The spaces and tabs of a label spell the label that consists of them. -/
theorem isSpelling_tokens (op : LabelOp) (l : Label) :
    IsSpelling (.label op (.ofTokens l.tokens))
      ((Opcode.label op).code ++ (l.tokens ++ [.lineFeed])) :=
  isSpelling_label op l.tokens l.lineFeed_notMem_tokens

end Instruction

end Whitespace
