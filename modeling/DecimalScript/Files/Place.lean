import DecimalScript.Files.Tree

/-!
# Where paths lead

A tree has no links, so a path that can be followed leads to a place which its parts alone
determine: double dots lead to the directory above and every other part leads down. Paths
of the same place may differ, since double dots are kept in a path.
-/

namespace DecimalScript

namespace Path

/-- The part that leads to the directory above. -/
def up : List Char := ['.', '.']

/-- What an import adds to a directory: its text without one leading dot and slash, and with the
extension. -/
def moduleName (target : String) : List Char :=
  let relative := withoutDotSlash target
  if extension.toList.isSuffixOf relative then relative else relative ++ extension.toList

/-- Whether an import starts from a directory and not at the root. -/
def isRelative (target : String) : Bool := (moduleName target).head? != some '/'

/-- Whether an import leads to the directory above somewhere on its way. -/
def climbs (target : String) : Bool := ((moduleName target).splitOn '/').contains up

/-- The path at the end of a chain of imports, where the file at each path imports the next one. -/
def chain (path : Path) : List String → Path
  | [] => path
  | target :: rest => chain (ofModule path.parent target) rest

end Path

namespace FileTree

/-- Where a part of a path leads from a place. -/
def advance (place : Place) (part : List Char) : Place :=
  if Path.isVoid part then place
  else if part == Path.up then place.dropLast
  else place ++ [part]

/-- The place from which a path is followed. -/
def start (tree : FileTree) (path : Path) : Place := if path.isAbsolute then [] else tree.home

/-- The place that a path leads to. -/
def place (tree : FileTree) (path : Path) : Place := path.parts.foldl advance (tree.start path)

end FileTree

end DecimalScript
