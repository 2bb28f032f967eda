import Whitespace.Instruction
import Whitespace.Literal

/-!
# How instructions are spelled

An instruction is spelled by the lead of its family, its command within the family and, if it has
one, its operand.  The opcode table is stated here once; decoding reads it backwards through
`Family.ofLead?`, `Opcode.ofCommand?` and `Opcode.continues`, the last of which tells whether some
longer command begins with the tokens read so far.
-/

namespace Whitespace

namespace Family

/-- Every family. -/
def all : List Family :=
  [.stack, .arithmetic, .heap, .flow, .io]

/-- The tokens that every instruction of a family begins with. -/
def lead : Family → List Token
  | stack => [.space]
  | arithmetic => [.tab, .space]
  | heap => [.tab, .tab]
  | flow => [.lineFeed]
  | io => [.tab, .lineFeed]

/-- The family with the given lead. -/
def ofLead? (tokens : List Token) : Option Family :=
  all.find? (·.lead == tokens)

/-- What messages call a family. -/
def name : Family → String
  | stack => "stack manipulation"
  | arithmetic => "arithmetic"
  | heap => "heap access"
  | flow => "flow control"
  | io => "i/o"

end Family

namespace Opcode

/-- The tokens that follow the lead of the family. -/
def command : Opcode → List Token
  | number .push => [.space]
  | number .copy => [.tab, .space]
  | number .slide => [.tab, .lineFeed]
  | plain .duplicate => [.lineFeed, .space]
  | plain .swap => [.lineFeed, .tab]
  | plain .discard => [.lineFeed, .lineFeed]
  | plain (.calculate .add) => [.space, .space]
  | plain (.calculate .subtract) => [.space, .tab]
  | plain (.calculate .multiply) => [.space, .lineFeed]
  | plain (.calculate .divide) => [.tab, .space]
  | plain (.calculate .modulo) => [.tab, .tab]
  | plain .store => [.space]
  | plain .load => [.tab]
  | label .define => [.space, .space]
  | label .call => [.space, .tab]
  | label .jump => [.space, .lineFeed]
  | label (.jumpIf .zero) => [.tab, .space]
  | label (.jumpIf .negative) => [.tab, .tab]
  | plain .ret => [.tab, .lineFeed]
  | plain .stop => [.lineFeed, .lineFeed]
  | plain (.print .character) => [.space, .space]
  | plain (.print .number) => [.space, .tab]
  | plain (.read .character) => [.tab, .space]
  | plain (.read .number) => [.tab, .tab]

/-- The tokens of an opcode. -/
def code (op : Opcode) : List Token :=
  op.family.lead ++ op.command

/-- The opcodes of a family. -/
def ofFamily (f : Family) : List Opcode :=
  all.filter (·.family == f)

theorem mem_ofFamily {f : Family} {op : Opcode} : op ∈ ofFamily f ↔ op.family = f := by
  simp [ofFamily, mem_all]

/-- The opcode of a family with the given command. -/
def ofCommand? (f : Family) (tokens : List Token) : Option Opcode :=
  (ofFamily f).find? (·.command == tokens)

/-- Whether some command of a family begins with the given tokens. -/
def continues (f : Family) (tokens : List Token) : Bool :=
  (ofFamily f).any (tokens.isPrefixOf ·.command)

theorem ofCommand?_command (op : Opcode) : ofCommand? op.family op.command = some op := by
  have table : ∀ op ∈ all, ofCommand? op.family op.command = some op := by decide
  exact table op (mem_all op)

end Opcode

namespace Instruction

/-- The operand of an instruction as it is spelled. -/
def operandSource : Instruction → List Char
  | number _ value => (Literal.encode value).map Token.char
  | label _ name => name.source
  | plain _ => []

/-- The canonical source of an instruction. -/
def source (i : Instruction) : List Char :=
  i.opcode.code.map Token.char ++ i.operandSource

end Instruction

/-- The canonical source of a program: the sources of its instructions in order. -/
def encode (instructions : List Instruction) : List Char :=
  instructions.flatMap Instruction.source

end Whitespace
