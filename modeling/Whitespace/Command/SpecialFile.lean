/-!
# Special files

Some paths of the system name no stored files: the null device, the devices of endless bytes, the
terminal, and the standard streams of the command.  Of these, standard input is taken to be a file
all the same, which was redirected to the command; the other streams are taken to be pipes.
-/

namespace Whitespace.Command

/-- A file that is not stored, or has a special name. -/
inductive SpecialFile where
  /-- Is at its end when it is read and forgets what is written. -/
  | null
  /-- Gives null bytes without end and forgets what is written. -/
  | zero
  /-- Gives bytes without end that nobody can tell and forgets what is written. -/
  | random
  /-- Gives null bytes without end and has no room for what is written. -/
  | full
  /-- The terminal of the command, which it does not have. -/
  | terminal
  | standardInput
  | standardOutput
  | standardError
  deriving DecidableEq, Repr

namespace SpecialFile

/-- Whether a special file gives bytes without end. -/
def isEndless : SpecialFile → Bool
  | zero | random | full => true
  | _ => false

end SpecialFile

end Whitespace.Command
