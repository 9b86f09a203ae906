import DecimalScript.Eval.Import
import DecimalScript.Syntax.Calls
import DecimalScript.Syntax.Declarations

/-!
# Modules that a module loads

What an import loads depends on the files, on the directory that it is relative to and on the
modules that are being loaded; these make up a site. The imports of a module that is loaded have a
site of their own. What they load and what is loaded from there are the modules nested in it.
-/

namespace DecimalScript

/-- A name that a function of a program is registered by under an alias, plain or qualified. -/
def Block.Registers (program : Block) (aliasName name : String) : Prop :=
  ∃ defined ∈ program.functionNames, name = defined ∨ name = Eval.qualified aliasName defined

instance (program : Block) (aliasName name : String) :
    Decidable (program.Registers aliasName name) :=
  inferInstanceAs (Decidable (∃ defined ∈ program.functionNames, _))

/-- Where an import is done. -/
structure ImportSite where
  /-- The files that can be loaded. -/
  files : FileTree
  /-- The directory that imports are relative to. -/
  dir : Path
  /-- The modules that are being loaded, by their canonical paths. -/
  loading : List Path

/-- The site of the imports that a machine does. -/
def Machine.site (m : Machine) : ImportSite := ⟨m.files, m.baseDir, m.loading⟩

namespace ImportSite

/-- The site of the imports of a module. -/
def inside (site : ImportSite) (path : Path) : ImportSite :=
  { site with dir := path.parent, loading := path.canonical :: site.loading }

/-- A module file that an import loads at a site. -/
structure Loads (site : ImportSite) (target : ModuleRef) (path : Path) (program : Block) :
    Prop where
  /-- No library is named. -/
  file : Eval.importedLibrary? target = none
  /-- The path is relative to the directory. -/
  path_eq : Path.ofModule site.dir target.text = path
  /-- The module is not being loaded. -/
  idle : path.canonical ∉ site.loading
  /-- The file holds a program. -/
  read : Block.ofFile site.files path = .ok program

/-- The modules that the imports of a program load at a site, and those that are loaded from there,
each with the alias that it gets. -/
inductive Nested : ImportSite → Block → String → Block → Prop
  /-- An import of the program loads the module. -/
  | direct {site : ImportSite} {program nested : Block} {line : Nat} {target : ModuleRef}
      {aliasName : String} {path : Path} (huse : .use line target aliasName ∈ program)
      (hloads : site.Loads target path nested) : Nested site program aliasName nested
  /-- The module is nested in one that an import of the program loads. -/
  | deeper {site : ImportSite} {program middle nested : Block} {line : Nat} {target : ModuleRef}
      {through aliasName : String} {path : Path} (huse : .use line target through ∈ program)
      (hloads : site.Loads target path middle)
      (hnested : Nested (site.inside path) middle aliasName nested) :
      Nested site program aliasName nested

/-- The constants of nested modules do not call. -/
def CallFree (site : ImportSite) (program : Block) : Prop :=
  ∀ aliasName nested, site.Nested program aliasName nested → nested.constantsCall = false

/-- A name that a function of a nested module is registered by. -/
def Registers (site : ImportSite) (program : Block) (name : String) : Prop :=
  ∃ aliasName nested, site.Nested program aliasName nested ∧ nested.Registers aliasName name

end ImportSite

end DecimalScript
