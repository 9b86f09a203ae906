/-!
# Paths

A path is kept as it was written. Its components are what stands between the slashes,
where empty parts and single dots inside the path do not count; a dot in front and
double dots do. Two paths are the same when their components are, which their canonical
spelling shows, and nothing is normalised beyond that.
-/

namespace DecimalScript

/-- A path as it was written. -/
structure Path where
  /-- The text of the path. -/
  text : String
  deriving DecidableEq, Repr

namespace Path

/-- The extension of module files. -/
def extension : String := ".myco"

/-- The characters of a path. -/
def chars (path : Path) : List Char := path.text.toList

/-- Whether a path starts at the root. -/
def isAbsolute (path : Path) : Bool := path.chars.head? == some '/'

/-- What stands between the slashes of a path. -/
def parts (path : Path) : List (List Char) := path.chars.splitOn '/'

/-- A part that names no component inside a path. -/
def isVoid (part : List Char) : Bool := part.isEmpty || part == ['.']

/-- The components of a path. -/
def components (path : Path) : List (List Char) :=
  match path.parts with
  | [] => []
  | first :: rest => (if first.isEmpty then [] else [first]) ++ rest.filter (!isVoid ·)

/-- The path with the same start and components and nothing else in it. Two paths are the same
when this one is. -/
def canonical (path : Path) : Path :=
  let start := if path.isAbsolute then ['/'] else []
  ⟨String.ofList (start ++ ['/'].intercalate path.components)⟩

/-- A path below another one; an absolute path stands for itself. -/
def join (base : Path) (path : String) : Path :=
  if path.toList.head? == some '/' then ⟨path⟩
  else if base.text.isEmpty || base.chars.getLast? == some '/' then ⟨base.text ++ path⟩
  else ⟨base.text ++ "/" ++ path⟩

/-- A text without one leading dot and slash. -/
def withoutDotSlash (text : String) : List Char :=
  match text.toList with
  | '.' :: '/' :: rest => rest
  | chars => chars

/-- The path of the module that an import names: below a directory, with the extension added
unless it is there. -/
def ofModule (base : Path) (target : String) : Path :=
  let relative := withoutDotSlash target
  if extension.toList.isSuffixOf relative then base.join (String.ofList relative)
  else base.join (String.ofList relative ++ extension)

/-- Drops void parts at the end of a list of parts; the first part stays unless it is empty. -/
def dropVoidEnd (parts : List (List Char)) : List (List Char) :=
  match parts with
  | [] => []
  | first :: rest => first :: (rest.reverse.dropWhile isVoid).reverse

/-- The directory that holds what a path leads to: the path without its last component, and
without void parts before it. A path of one component has the empty parent. -/
def parent (path : Path) : Path :=
  let kept := dropVoidEnd ((dropVoidEnd path.parts).dropLast)
  match kept with
  | [[]] => if path.isAbsolute then ⟨"/"⟩ else ⟨""⟩
  | _ => ⟨String.ofList (['/'].intercalate kept)⟩

end Path

end DecimalScript
