import DecimalScript.Eval.Observe
import DecimalScript.Files.Place
import DecimalScript.Syntax.Targets

/-!
# Loading a file while it is being loaded

A module that is being loaded is known by its path, and a file has many paths. An observer
finds out whether a program loads a file while that file is being loaded, or has more
loads in progress than there are files. Whether a program can do so depends on where its
imports lead, and those of all the functions and files that it may run.
-/

namespace DecimalScript

/-- Whether an import starts from a directory and leads nowhere up from there. -/
def ModuleRef.descends (target : ModuleRef) : Bool :=
  Path.isRelative target.text && !Path.climbs target.text

/-- Whether no import in a block leads up. -/
def Block.descends (block : Block) : Bool := (Stmt.targetsAll block).all (·.descends)

/-- Whether no import leads up in the program that a file holds. -/
def FileEntry.descends : FileEntry → Bool
  | .file contents =>
    match Block.ofSource contents with
    | .ok program => Block.descends program
    | .error _ => true
  | .directory => true

namespace Machine

/-- Whether no import leads up in the functions and the files of a machine. -/
def descends (m : Machine) : Bool :=
  m.functions.all (fun (_, function) => Block.descends function.body) &&
    m.files.entries.all fun (_, entry) => entry.descends

/-- Whether an import would load a file: it names no library, its path is not being loaded, and a
program can be read from there. -/
def loads (m : Machine) (target : ModuleRef) : Bool :=
  let path := Path.ofModule m.baseDir target.text
  (Eval.importedLibrary? target).isNone && !m.loading.contains path.canonical &&
    (Block.ofFile m.files path).isOk

/-- Whether the file that an import names is not being loaded, and there are fewer loads in
progress than files. -/
def mayLoad (m : Machine) (target : ModuleRef) : Bool :=
  let path := Path.ofModule m.baseDir target.text
  m.loading.all (fun other => m.files.place other != m.files.place path) &&
    decide (m.loading.length < m.files.fileCount)

end Machine

/-- The observer that refuses to load a file while it is being loaded, and to have more loads in
progress than there are files. -/
def Observer.loadsOnce : Observer := fun job m _ =>
  match job with
  | .execute (.use _ target _) => !m.loads target || m.mayLoad target
  | _ => true

end DecimalScript
