import DecimalScript.Files.Path

/-!
# File trees

A tree holds files and directories by their place below the root, and has a home
directory where relative paths start. A path is followed part by part: every part needs
a directory to start from, so a missing directory and a file in its place give
different faults, and so does reading a directory.
-/

namespace DecimalScript

/-- Why a file or a sink cannot be used. -/
inductive IoFault where
  | notFound | notDirectory | isDirectory | nameTooLong | nulInName | noSpace
  /-- Any other fault, by its wording. -/
  | other (message : String)
  deriving DecidableEq, Repr

/-- The wording of a fault. -/
def IoFault.message : IoFault → String
  | notFound => "No such file or directory (os error 2)"
  | notDirectory => "Not a directory (os error 20)"
  | isDirectory => "Is a directory (os error 21)"
  | nameTooLong => "File name too long (os error 36)"
  | nulInName => "file name contained an unexpected NUL byte"
  | noSpace => "No space left on device (os error 28)"
  | other message => message

/-- The place of a file or directory: the names on the way to it from the root. -/
abbrev Place := List (List Char)

/-- A file with its contents, or a directory. -/
inductive FileEntry where
  | file (contents : List UInt8)
  | directory
  deriving DecidableEq

/-- Files and directories by their place. -/
structure FileTree where
  /-- The entries. -/
  entries : List (Place × FileEntry) := []
  /-- The place of the home directory. -/
  home : Place := []

namespace FileTree

/-- The greatest length of a name in bytes. -/
def maxName : Nat := 255

/-- The greatest length of a path in bytes. -/
def maxPath : Nat := 4095

/-- What is at a place. A place on the way to an entry or to the home directory is a directory,
and so is the root. -/
def entry? (tree : FileTree) (place : Place) : Option FileEntry :=
  match tree.entries.lookup place with
  | some entry => some entry
  | none =>
    if place.isPrefixOf tree.home || tree.entries.any (fun (other, _) => place.isPrefixOf other)
    then some .directory
    else none

/-- Follows the parts of a path from a place. -/
def follow (tree : FileTree) (place : Place) : List (List Char) → Except IoFault Place
  | [] => .ok place
  | part :: rest =>
    match tree.entry? place with
    | none => .error .notFound
    | some (.file _) => .error .notDirectory
    | some .directory =>
      if Path.isVoid part then tree.follow place rest
      else if part == ['.', '.'] then tree.follow place.dropLast rest
      else if maxName < (String.ofList part).utf8ByteSize then .error .nameTooLong
      else tree.follow (place ++ [part]) rest

/-- The contents of the file at a place. -/
def contents (tree : FileTree) (place : Place) : Except IoFault (List UInt8) :=
  match tree.entry? place with
  | none => .error .notFound
  | some .directory => .error .isDirectory
  | some (.file contents) => .ok contents

/-- The contents of the file that a path leads to. -/
def read (tree : FileTree) (path : Path) : Except IoFault (List UInt8) :=
  if path.chars.contains '\x00' then .error .nulInName
  else if path.text.isEmpty then .error .notFound
  else if maxPath < path.text.utf8ByteSize then .error .nameTooLong
  else tree.follow (if path.isAbsolute then [] else tree.home) path.parts >>= tree.contents

/-- The number of files. -/
def fileCount (tree : FileTree) : Nat :=
  (tree.entries.filter fun (_, entry) => entry != .directory).length

end FileTree

end DecimalScript
