import Whitespace.Command.Options
import Whitespace.Event
import Whitespace.Text.Terminal

/-!
# What goes to standard error

The command reports events on standard error as they happen.  Which of them are shown depends on the
options.  In raw mode every key is echoed there when it is read, and the output of the program may
be sent there, too.
-/

namespace Whitespace.Command

/-- Something that goes to standard error. -/
inductive Notice where
  | event (e : Event)
  | echo (byte : UInt8)
  /-- Output of the program, if that goes to standard error. -/
  | printed (bytes : List UInt8)
  deriving DecidableEq, Repr

/-- Whether the options have events of a level shown. -/
def Options.shows (o : Options) (level : Level) : Bool :=
  if o.quiet then level == .error
  else if o.debug || o.debugHeap then true
  else level == .info || level == .error

/-- The bytes of a notice on standard error: none if it is not to be shown. -/
def Notice.bytes (o : Options) : Notice → List UInt8
  | event e =>
    if o.shows e.level then (Terminal.sanitize e.alignedLine ++ "\n").toUTF8.toList else []
  | echo byte => [byte]
  | printed bytes => bytes

end Whitespace.Command
