import DecimalScript.Eval.Import
import DecimalScript.Syntax.Imports
import DecimalScript.Syntax.Size

/-!
# Bounds on nested evaluation

Evaluation nests inside one tree at most as deep as the tree is large. It leaves the
tree by a call, of which only so many may be in progress, or by loading a module. While
a module is loaded it is not loaded again by the same path, and the paths that can be
read are bounded in length, which bounds the modules being loaded at a time.
-/

namespace DecimalScript

/-- The greatest value of a measure on a list, or zero on an empty one. -/
def greatest {α : Type} (measure : α → Nat) : List α → Nat
  | [] => 0
  | item :: rest => max (measure item) (greatest measure rest)

mutual

/-- The size of the largest lambda in a value. -/
def Value.lambdaSize : Value → Nat
  | .number _ => 0
  | .text _ => 0
  | .boolean _ => 0
  | .array items => Value.lambdaSizeAll items
  | .object fields => Value.lambdaSizeFields fields
  | .lambda _ _ body => body.size
  | .nothing => 0

/-- The size of the largest lambda in a list of values. -/
def Value.lambdaSizeAll : List Value → Nat
  | [] => 0
  | value :: rest => max value.lambdaSize (Value.lambdaSizeAll rest)

/-- The size of the largest lambda in the fields of an object. -/
def Value.lambdaSizeFields : List (String × Value) → Nat
  | [] => 0
  | (_, value) :: rest => max value.lambdaSize (Value.lambdaSizeFields rest)

end

/-- The size of the program in a file, if it holds one. -/
def FileEntry.programSize : FileEntry → Nat
  | .file contents => ((Block.ofSource contents).toOption.map Stmt.sizeAll).getD 0
  | .directory => 0

/-- The size of the largest program in the files of a tree. -/
def FileTree.programSize (files : FileTree) : Nat :=
  greatest (fun (_, entry) => entry.programSize) files.entries

/-- A bound on the modules of a tree being loaded at a time: the number of texts that can be a
path, each character of which takes at most 21 binary digits. -/
def FileTree.loadBound (files : FileTree) : Nat :=
  if files.fileCount = 0 then 0 else 1 <<< (21 * FileTree.maxPath)

namespace Machine

/-- The size of the largest tree a machine holds in functions and lambdas. -/
def storedSize (m : Machine) : Nat :=
  max (greatest (fun (_, function) => Stmt.sizeAll function.body) m.functions)
    (greatest (·.value.lambdaSize) m.env.bindings)

/-- Whether there is an import in a function of a machine. -/
def imports (m : Machine) : Bool := m.functions.any fun (_, function) =>
  Stmt.importsAny function.body

/-- A bound on nested evaluation, given the size of what is evaluated and whether it imports: in
each call and each module being loaded it nests at most as deep as the largest tree. Files count
only where something imports. -/
def nestingBound (m : Machine) (size : Nat) (importing : Bool) : Nat :=
  let stored := max size m.storedSize
  if importing || m.imports then
    (m.maxCallDepth + m.files.loadBound + 1) * (max stored m.files.programSize + 1)
  else (m.maxCallDepth + 1) * (stored + 1)

end Machine

end DecimalScript
