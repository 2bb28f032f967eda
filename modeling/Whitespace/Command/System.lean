import Whitespace.Command.SpecialFile

/-!
# The system

What lies outside the directory of the command: special files, other files, and directories.  All of
it depends on the system, so a `System` is a parameter of whatever looks at paths.  A system has
nothing in it unless it is told.
-/

namespace Whitespace.Command

/-- Why a path cannot be used. -/
inductive PathError where
  | notFound
  | notDirectory
  | isDirectory
  /-- A directory was to be mapped into memory. -/
  | noDevice
  | nameTooLong
  | denied
  /-- A special file has nothing behind it. -/
  | noAddress
  deriving DecidableEq, Repr

/-- The text for an error, with the number that the system gives it. -/
def PathError.message : PathError → String
  | notFound => "No such file or directory (os error 2)"
  | notDirectory => "Not a directory (os error 20)"
  | isDirectory => "Is a directory (os error 21)"
  | noDevice => "No such device (os error 19)"
  | nameTooLong => "File name too long (os error 36)"
  | denied => "Permission denied (os error 13)"
  | noAddress => "No such device or address (os error 6)"

/-- What stands somewhere in a system. -/
inductive Outside where
  | special (f : SpecialFile)
  /-- A file, with what is known of its contents. -/
  | file (contents : String)
  /-- A directory, by its components from the root; a link to it may go by others. -/
  | directory (path : List String)
  /-- The directory of the command. -/
  | workingDirectory
  deriving DecidableEq, Repr

/-- A system, by components from its root. -/
structure System where
  /-- What a path leads to, if it leads to something. -/
  leadsTo? : List String → Option Outside := fun _ => none
  /-- Why no file can be created in a directory; `none` if one can, which is then lost. -/
  refuses? : List String → Option PathError := fun _ => none
  /-- Whether a directory has no size, as one has whose contents are made up when they are read. -/
  hasNoSize : List String → Bool := fun _ => false

end Whitespace.Command
