import Whitespace.Command.System

/-!
# Files

A directory with some files in it, as far as the command needs one: files are read whole, created
and replaced.  A file is named by a path: its components are separated by slashes, empty components
and `.` mean the directory they stand in, and `..` means the one above.

Every component but the last must be a directory.  A path that ends in a slash means a directory.

Outside the directory there is the system, a parameter.  Files that are created there are lost.
-/

namespace Whitespace.Command

/-- Files by name, in no particular order. -/
structure Files where
  entries : List (String × ByteArray) := []
  /-- The contents of the file that was redirected to the command. -/
  standardInput : ByteArray := .empty
  /-- What there is outside. -/
  system : System := {}

/-- What a path leads to. -/
inductive Place where
  /-- The directory with the given components, none for the outermost. -/
  | directory (path : List String)
  | file (path : List String)
  /-- A directory above the outermost. -/
  | above
  /-- A directory of the system, by its components from the root. -/
  | system (path : List String)
  | special (f : SpecialFile)
  /-- A file outside, with what is known of its contents. -/
  | outside (contents : String)
  deriving DecidableEq, Repr

namespace Files

/-- The parts between the slashes of a path. -/
def partsOf (path : String) : List String :=
  (path.toList.splitOn '/').map String.ofList

/-- The components of the name of a file. -/
def pathOf (name : String) : List String :=
  (partsOf name).filter fun part => part ≠ "" ∧ part ≠ "."

/-- The contents of the file with the given components. -/
def contents? (files : Files) (path : List String) : Option ByteArray :=
  (files.entries.find? fun entry => pathOf entry.1 == path).map (·.2)

/-- Whether there is a directory with the given components: one that holds a file, or the
outermost. -/
def hasDirectory (files : Files) (path : List String) : Bool :=
  path.isEmpty || files.entries.any fun entry =>
    path.isPrefixOf (pathOf entry.1) && path.length < (pathOf entry.1).length

/-- The bytes a component may have. -/
def longestPart : Nat :=
  255

/-- The bytes a path may have. -/
def longestPath : Nat :=
  4095

/-- Whether a component means the directory in which it stands. -/
def isHere (part : String) : Bool :=
  part == "" || part == "."

/-- What a path from the root of the system leads to. -/
def enter (files : Files) (path : List String) : Except PathError Place :=
  match files.system.leadsTo? path with
  | some (.special f) => .ok (.special f)
  | some (.file contents) => .ok (.outside contents)
  | some (.directory path) => .ok (.system path)
  | some .workingDirectory => .ok (.directory [])
  | none => .error .notFound

/-- Goes one component further. -/
def walk (files : Files) (place : Place) (part : String) : Except PathError Place :=
  match place with
  | .file _ | .special _ | .outside _ => .error .notDirectory
  | .above =>
    if isHere part || part == ".." then .ok .above
    else if longestPart < part.utf8ByteSize then .error .nameTooLong
    else .error .notFound
  | .system path =>
    if isHere part then .ok (.system path)
    else if part = ".." then .ok (.system path.dropLast)
    else if longestPart < part.utf8ByteSize then .error .nameTooLong
    else files.enter (path ++ [part])
  | .directory path =>
    if isHere part then .ok (.directory path)
    else if part = ".." then .ok (if path.isEmpty then .above else .directory path.dropLast)
    else if longestPart < part.utf8ByteSize then .error .nameTooLong
    else if (files.contents? (path ++ [part])).isSome then .ok (.file (path ++ [part]))
    else if files.hasDirectory (path ++ [part]) then .ok (.directory (path ++ [part]))
    else .error .notFound

/-- Where a path begins. -/
def origin (path : String) : Except PathError Place :=
  if path.isEmpty then .error .notFound
  else if longestPath < path.utf8ByteSize then .error .nameTooLong
  else .ok (if path.startsWith "/" then .system [] else .directory [])

/-- What a path leads to. -/
def find (files : Files) (path : String) : Except PathError Place := do
  (partsOf path).foldlM files.walk (← origin path)

/-- The files with other contents for one of them, which is created if it does not exist. -/
def write (files : Files) (path : List String) (contents : ByteArray) : Files :=
  if (files.contents? path).isSome then
    { files with
      entries := files.entries.map fun entry =>
        if pathOf entry.1 == path then (entry.1, contents) else entry }
  else
    { files with entries := files.entries ++ [("/".intercalate path, contents)] }

/-- The contents at a place, if it has some. -/
def read? (files : Files) (place : Place) : Option ByteArray :=
  match place with
  | .file path => files.contents? path
  | .special .standardInput => some files.standardInput
  | .outside contents => some contents.toUTF8
  | _ => none

/-- The files with other contents for a place; only files that are stored keep them. -/
def store (files : Files) (place : Place) (contents : ByteArray) : Files :=
  match place with
  | .file path => files.write path contents
  | .special .standardInput => { files with standardInput := contents }
  | _ => files

/-- A file that is created in a directory of the system. -/
def createOutside (files : Files) (path : List String) : Except PathError Place :=
  match files.system.refuses? path with
  | some e => .error e
  | none => .ok (.outside "")

/-- The file of the given name in a directory, which is created if it does not exist. -/
def create (files : Files) (directory : Place) (name : String) : Except PathError Place :=
  match files.walk directory name with
  | .ok (.directory _) | .ok (.system _) | .ok .above => .error .isDirectory
  | .ok place => .ok place
  | .error .notFound =>
    match directory with
    | .directory path => .ok (.file (path ++ [name]))
    | .system path => files.createOutside path
    | _ => .ok (.outside "")
  | .error e => .error e

/-- Where what is written to a path goes: to a file that is created if it does not exist. -/
def destination (files : Files) (path : String) : Except PathError Place := do
  let start ← origin path
  match (partsOf path).reverse.dropWhile String.isEmpty with
  | [] => throw .isDirectory
  | last :: parents =>
    match ← parents.reverse.foldlM files.walk start with
    | .file _ | .special _ | .outside _ => throw .notDirectory
    | directory =>
      if path.endsWith "/" then throw .isDirectory else files.create directory last

end Files

end Whitespace.Command
