import Whitespace.Token

/-!
# Labels

A label names a place in a program.  In a source it is spelled with spaces and tabs and ends at a
line feed; programs built by other means may use any characters.  Listings write a label by its
*mnemonic*, `s` for a space and `t` for a tab.
-/

namespace Whitespace

/-- The name of a place in a program. -/
structure Label where
  chars : List Char
  deriving DecidableEq, Repr

namespace Label

def ofString (text : String) : Label :=
  ⟨text.toList⟩

/-- The label spelled by some tokens. -/
def ofTokens (tokens : List Token) : Label :=
  ⟨tokens.map Token.char⟩

/-- The characters of a label as text. -/
def text (l : Label) : String :=
  String.ofList l.chars

/-- How a label is spelled in a source: its characters and a closing line feed. -/
def source (l : Label) : List Char :=
  l.chars ++ ['\n']

/-- The letter that stands for a character in a mnemonic. -/
def letter : Char → Char
  | ' ' => 's'
  | '\t' => 't'
  | c => c

/-- The character a letter of a mnemonic stands for. -/
def ofLetter? : Char → Option Char
  | 's' => some ' '
  | 't' => some '\t'
  | _ => none

/-- A label as listings write it: `s` for a space, `t` for a tab, the rest unchanged. -/
def mnemonic (l : Label) : String :=
  String.ofList (l.chars.map letter)

/-- The label over spaces and tabs that has this mnemonic, if there is one. -/
def ofMnemonic? (text : String) : Option Label :=
  (text.toList.mapM ofLetter?).map Label.mk

@[simp] theorem text_ofString (s : String) : (ofString s).text = s := by
  simp [ofString, text]

@[simp] theorem ofString_text (l : Label) : ofString l.text = l := by
  simp [ofString, text]

theorem ofLetter?_letter {c : Char} (h : c = ' ' ∨ c = '\t') : ofLetter? (letter c) = some c := by
  rcases h with rfl | rfl <;> decide

end Label

end Whitespace
