import DecimalScript.Eval.Call
import DecimalScript.Syntax.Program

/-!
# Loading modules

An alias is bound to a library, or to a module file, whose path is taken relative to the
directory of the module that is being loaded. A file that is being loaded already is
skipped, and one that cannot be read is reported. Loading a module first does its own
imports, then registers its functions under their qualified and plain names, and then
evaluates its constants, each in sight of the ones before it; nothing else in a module
is run.
-/

namespace DecimalScript

/-- The program of a source. -/
def Block.ofSource (source : List UInt8) : Except Stop Block :=
  match Token.ofSource source with
  | .error error => .error (.failed (.lexical error))
  | .ok tokens =>
    match Block.ofTokens tokens with
    | .ok program => .ok program
    | .error (.fault error) => .error (.failed (.syntactic error))
    | .error .exhausted => .error .exhausted

/-- The program of a file. -/
def Block.ofFile (files : FileTree) (path : Path) : Except Stop Block :=
  match files.read path with
  | .error fault => .error (.failed (.io fault))
  | .ok source => Block.ofSource source

namespace Eval

variable (run : JobRunner)

/-- Does the imports of a module. -/
def importNested : Block → Eval Unit
  | [] => pure ()
  | .use line target aliasName :: rest => do
    let _ ← run (.execute (.use line target aliasName))
    importNested rest
  | _ :: rest => importNested rest

/-- Registers the functions of a module. -/
def registerFunctions (aliasName : String) : Block → NameTable Function → NameTable Function
  | [], functions => functions
  | .define _ name params returnType body :: rest, functions =>
    let function : Function := ⟨name, params, returnType, body⟩
    registerFunctions aliasName rest
      ((functions.set (qualified aliasName name) function).set name function)
  | _ :: rest, functions => registerFunctions aliasName rest functions

/-- The constants of a module in order. Each one is bound while the later ones are evaluated. -/
def constants : Block → Eval (List (String × Value))
  | [] => pure []
  | .declare _ name _ expr :: rest => do
    let value ← run (.evaluate expr)
    modify fun m => { m with env := m.env.define name value }
    return (name, value) :: (← constants rest)
  | _ :: rest => constants rest

/-- Binds constants under their qualified names. -/
def assignConstants (aliasName : String) (env : Environment) (found : List (String × Value)) :
    Environment :=
  found.foldl (fun env (name, value) => env.assign (qualified aliasName name) value) env

/-- Runs a body in a scope that is closed afterwards. -/
def inScope {α : Type} (body : Eval α) : Eval α := fun m =>
  leaveScope "scope stack underflow while loading a module" 0 0
    (body { m with env := m.env.pushScope })

/-- Runs a body with imports relative to another directory. -/
def inDirectory {α : Type} (dir : Path) (body : Eval α) : Eval α := fun m =>
  afterwards body (fun after => { after with baseDir := m.baseDir }) { m with baseDir := dir }

/-- Makes the functions and constants of a module available under an alias. -/
def install (path : Path) (program : Block) (aliasName : String) : Eval Unit := do
  inDirectory path.parent (importNested run program)
  modify fun m => { m with functions := registerFunctions aliasName program m.functions }
  let found ← inScope (constants run program)
  modify fun m => { m with env := assignConstants aliasName m.env found }

/-- Runs a body while a path counts as being loaded. -/
def whileLoading {α : Type} (path : Path) (body : Eval α) : Eval α := fun m =>
  afterwards body (fun after => { after with loading := after.loading.tail })
    { m with loading := path.canonical :: m.loading }

/-- Binds an alias to a module. -/
def bindModule (aliasName : String) (module : Module) : Eval Unit :=
  modify fun m => { m with modules := m.modules.set aliasName module }

/-- The wording of a module that cannot be read. -/
def loadFailure (target : String) (failure : Failure) : String :=
  s!"Cannot load module '{target}': {failure.message}"

/-- Loads a module file. -/
def importFile (target : ModuleRef) (aliasName : String) (line : Nat) : Eval Unit := do
  let m ← get
  let path := Path.ofModule m.baseDir target.text
  if m.loading.contains path.canonical then return ()
  match Block.ofFile m.files path with
  | .error .exhausted => exhausted
  | .error (.failed failure) => report line (loadFailure target.text failure)
  | .ok program =>
    whileLoading path (install run path program aliasName)
    bindModule aliasName (.source path program)

/-- The library that an import names; a path never names one. -/
def importedLibrary? : ModuleRef → Option Library
  | .path _ => none
  | .quoted name | .bare name => Library.ofImport? name

/-- Does an import. -/
def importModule (target : ModuleRef) (aliasName : String) (line : Nat) : Eval Unit :=
  match importedLibrary? target with
  | some library => bindModule aliasName (.library library)
  | none => importFile run target aliasName line

end Eval

end DecimalScript
