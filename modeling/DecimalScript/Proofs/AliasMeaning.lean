import DecimalScript.Proofs.DistinctFields
import DecimalScript.Proofs.Loading
import DecimalScript.Proofs.PlainNames

/-!
# What is reached through an alias

A member of an alias is looked up by its qualified name among the functions and the variables, and
only then in the library that the alias stands for. Binding an alias again replaces what it stands
for, but takes nothing out of these tables. So every function that was ever registered under an
alias is reached through it for good, and is called in place of a library function of that name.
-/

namespace DecimalScript

/-- Whether a module has a function: it defines it, or the library has it built in. -/
def Module.hasFunction : Module → String → Bool
  | .library builtIn, name => (builtIn.builtin? name).isSome
  | .source _ program, name => program.functionNames.contains name

/-- Whether a module has a constant: it declares it, or the library has it. -/
def Module.hasConstant : Module → String → Bool
  | .library builtIn, name => (builtIn.constant? name).isSome
  | .source _ program, name => program.constantNames.contains name

namespace Machine

/-- A call of a member of an alias finds a function of a module. -/
def ReachesFunction (m : Machine) (aliasName name : String) : Prop :=
  (m.functions.get? (Eval.qualified aliasName name)).isSome

/-- A member of an alias is found as a constant of a module; a variable of the name of the alias
would hide it. -/
def ReachesConstant (m : Machine) (aliasName name : String) : Prop :=
  m.env.binds aliasName = false ∧ m.env.binds (Eval.qualified aliasName name) = true

/-- Through an alias nothing is reached but what the module that it stands for has. -/
def MeansModule (m : Machine) (aliasName : String) (module : Module) : Prop :=
  (∀ name, m.ReachesFunction aliasName name → module.hasFunction name) ∧
    ∀ name, m.ReachesConstant aliasName name → module.hasConstant name

variable {m after : Machine} {aliasName name : String}

/-- A function that is reached is the one that is called. -/
theorem ReachesFunction.called (h : m.ReachesFunction aliasName name) (run : JobRunner)
    (arguments : List Expr) (line : Nat) : ∃ function,
      m.functions.get? (Eval.qualified aliasName name) = some function ∧
      Eval.callMember? run m aliasName name arguments line =
        some (Eval.callFunction run function arguments line) := by
  obtain ⟨function, hfunction⟩ := Option.isSome_iff_exists.mp h
  refine ⟨function, hfunction, ?_⟩
  unfold Eval.callMember?
  rw [hfunction]

/-- A constant that is reached is the value of the member. -/
theorem ReachesConstant.read (h : m.ReachesConstant aliasName name) : ∃ value,
    m.env.get? (Eval.qualified aliasName name) = some value ∧
      Eval.constantOf? m aliasName name = some value := by
  have hfound : (m.env.get? (Eval.qualified aliasName name)).isSome := by
    have hbound := h.2
    unfold Environment.binds at hbound
    simpa [Environment.get?] using hbound
  obtain ⟨value, hvalue⟩ := Option.isSome_iff_exists.mp hfound
  refine ⟨value, hvalue, ?_⟩
  unfold Eval.constantOf?
  rw [h.1, hvalue]
  rfl

/-- What is reached stays so, whatever evaluation does. -/
theorem Evolves.reachesFunction (h : m.Evolves after) (hm : m.ReachesFunction aliasName name) :
    after.ReachesFunction aliasName name :=
  h.isSome_function hm

theorem Evolves.reachesConstant (h : m.Evolves after) (hm : m.ReachesConstant aliasName name)
    (hvisible : after.env.binds aliasName = false) : after.ReachesConstant aliasName name := by
  refine ⟨hvisible, ?_⟩
  rw [Environment.binds_iff]
  exact h.names_suffix.subset (Environment.binds_iff.mp hm.2)

end Machine

namespace Eval

/-- What is registered under an alias after its module registered its functions. -/
theorem isSome_registerFunctions_iff {aliasName name : String} {program : Block}
    (hplain : ∀ defined ∈ program.functionNames, PlainName defined)
    (functions : NameTable Function) :
    ((registerFunctions aliasName program functions).get? (qualified aliasName name)).isSome ↔
      name ∈ program.functionNames ∨ (functions.get? (qualified aliasName name)).isSome := by
  induction program generalizing functions with
  | nil => simp [registerFunctions, Block.functionNames]
  | cons stmt rest ih =>
    cases stmt with
    | define line first params returnType body =>
      obtain ⟨hfirst, hrest⟩ := List.forall_mem_cons.mp hplain
      have hnot : qualified aliasName name ≠ first := (ne_qualified hfirst aliasName name).symm
      have hsame : qualified aliasName name = qualified aliasName first ↔ name = first :=
        ⟨qualified_injective, congrArg _⟩
      have hnames : Block.functionNames (.define line first params returnType body :: rest) =
          first :: Block.functionNames rest := rfl
      rw [registerFunctions, ih hrest, NameTable.isSome_get?_set, NameTable.isSome_get?_set, hsame,
        hnames, List.mem_cons]
      tauto
    | _ => exact ih hplain functions

/-- What is reached through the alias of a module that was installed, given what its imports and
its constants left. -/
theorem reaches_installed (path : Path) {program : Block} {aliasName : String}
    {found : List (String × Value)} {closed : Environment} (m evaluated : Machine)
    {imported : Machine}
    (hplain : ∀ defined ∈ program.functionNames, PlainName defined)
    (hfound : found.map (·.1) = program.constantNames)
    (hnames : closed.names = imported.env.names) :
    let after := evaluated.installed path program aliasName found closed
    (evaluated.functions = (m.registering aliasName program imported).functions →
      ∀ name, after.ReachesFunction aliasName name ↔
        name ∈ program.functionNames ∨ imported.ReachesFunction aliasName name) ∧
    ∀ name, after.ReachesConstant aliasName name ↔ imported.env.binds aliasName = false ∧
      (name ∈ program.constantNames ∨ imported.env.binds (qualified aliasName name) = true) := by
  intro after
  have hbinds (other : String) : after.env.binds other = true ↔
      imported.env.binds other = true ∨ ∃ entry ∈ found, other = qualified aliasName entry.1 := by
    rw [Environment.binds_iff, Environment.binds_iff, ← hnames]
    exact mem_names_assignConstants
  have hdeclared (name : String) :
      (∃ entry ∈ found, qualified aliasName name = qualified aliasName entry.1) ↔
        name ∈ program.constantNames := by
    rw [← hfound, List.mem_map]
    constructor
    · rintro ⟨entry, hentry, hsame⟩
      exact ⟨entry, hentry, (qualified_injective hsame).symm⟩
    · rintro ⟨entry, hentry, rfl⟩
      exact ⟨entry, hentry, rfl⟩
  have hhidden : after.env.binds aliasName = false ↔ imported.env.binds aliasName = false := by
    have hnone : ¬ ∃ entry ∈ found, aliasName = qualified aliasName entry.1 := by
      rintro ⟨entry, _, hsame⟩
      exact alias_ne_qualified aliasName entry.1 hsame
    rw [← Bool.not_eq_true, ← Bool.not_eq_true, hbinds, or_iff_left hnone]
  constructor
  · intro hfunctions name
    show (evaluated.functions.get? (qualified aliasName name)).isSome ↔ _
    rw [hfunctions]
    exact isSome_registerFunctions_iff hplain imported.functions
  · intro name
    unfold Machine.ReachesConstant
    rw [hhidden, hbinds, hdeclared]
    tauto

/-- So the alias of an installed module means the module exactly where it reached nothing else when
the functions of the module were registered. -/
theorem means_installed {path : Path} {program : Block} {aliasName : String}
    {found : List (String × Value)} {closed : Environment} {m imported evaluated : Machine}
    (hplain : ∀ defined ∈ program.functionNames, PlainName defined)
    (hfound : found.map (·.1) = program.constantNames)
    (hnames : closed.names = imported.env.names)
    (hfunctions : evaluated.functions = (m.registering aliasName program imported).functions) :
    (evaluated.installed path program aliasName found closed).MeansModule aliasName
        (.source path program) ↔ imported.MeansModule aliasName (.source path program) := by
  obtain ⟨hreached, hconstants⟩ := reaches_installed path m evaluated hplain hfound hnames
  have hdefined (name : String) : (Module.source path program).hasFunction name = true ↔
      name ∈ program.functionNames := List.contains_iff_mem
  have hdeclared (name : String) : (Module.source path program).hasConstant name = true ↔
      name ∈ program.constantNames := List.contains_iff_mem
  constructor
  · rintro ⟨hfunction, hconstant⟩
    exact ⟨fun name hname => hfunction name ((hreached hfunctions name).mpr (.inr hname)),
      fun name hname => hconstant name ((hconstants name).mpr ⟨hname.1, .inr hname.2⟩)⟩
  · rintro ⟨hfunction, hconstant⟩
    refine ⟨fun name hname => ?_, fun name hname => ?_⟩
    · rcases (hreached hfunctions name).mp hname with hnew | hold
      · exact (hdefined name).mpr hnew
      · exact hfunction name hold
    · rcases (hconstants name).mp hname with ⟨hvisible, hnew | hold⟩
      · exact (hdeclared name).mpr hnew
      · exact hconstant name ⟨hvisible, hold⟩

end Eval

open Eval

/-- Whatever is done, what was reached through an alias stays so, but for constants while a variable
has the name of the alias. An import of a library makes an alias mean the library exactly where
nothing else was reached through the alias before. The same holds of a module file: through its
alias its functions and constants are reached and all that was reached before; its own imports count
as before it, and its constants must not register functions. -/
theorem alias_reaches_what_it_reached (depth line : Nat) (target : ModuleRef) (aliasName : String)
    (m : Machine) :
    let run : JobRunner := fun job => Job.perform depth job
    let path := Path.ofModule m.baseDir target.text
    let use := Job.perform (depth + 1) (.execute (.use line target aliasName))
    (∀ {α : Type} (job : Job α) name,
      (m.ReachesFunction aliasName name →
        (Outcome.machine (run job m)).ReachesFunction aliasName name) ∧
      (m.ReachesConstant aliasName name →
        (Outcome.machine (run job m)).env.binds aliasName = false →
        (Outcome.machine (run job m)).ReachesConstant aliasName name)) ∧
    (∀ library, importedLibrary? target = some library →
      ∃ after, use m = .ok .normal after ∧
        after.modules.get? aliasName = some (.library library) ∧
        (after.MeansModule aliasName (.library library) ↔
          m.MeansModule aliasName (.library library))) ∧
    (∀ program flow after, importedLibrary? target = none → path.canonical ∉ m.loading →
      Block.ofFile m.files path = .ok program → use m = .ok flow after →
      after.modules.get? aliasName = some (.source path program) ∧
      ∃ imported evaluated found,
        importNested run program (m.importing path) = .ok () imported ∧
        (program.any Stmt.isImport = false → imported = m.importing path) ∧
        constants run program (m.registering aliasName program imported).opening =
          .ok found evaluated ∧
        (∀ name, after.ReachesConstant aliasName name ↔ imported.env.binds aliasName = false ∧
          (name ∈ program.constantNames ∨
            imported.env.binds (qualified aliasName name) = true)) ∧
        (evaluated.functions = (m.registering aliasName program imported).functions →
          (∀ name, after.ReachesFunction aliasName name ↔
            name ∈ program.functionNames ∨ imported.ReachesFunction aliasName name) ∧
          (after.MeansModule aliasName (.source path program) ↔
            imported.MeansModule aliasName (.source path program)))) := by
  intro run path use
  refine ⟨fun job name => ?_, fun library htarget => ?_, ?_⟩
  · have hmoves := Job.moves_perform depth job m
    exact ⟨hmoves.reachesFunction, hmoves.reachesConstant⟩
  · refine ⟨{ m with modules := m.modules.set aliasName (.library library) }, ?_,
      NameTable.get?_set_self _ _ _, Iff.rfl⟩
    show (do importModule run target aliasName line; return Flow.normal : Eval Flow) m = _
    unfold importModule
    rw [htarget]
    rfl
  · intro program flow after htarget hnew hread huse
    have hload : Loading run path program aliasName m (importFile run target aliasName line m) :=
      loading_importFile (fun job => Job.moves_perform depth job) hnew hread aliasName line
    have hplain : ∀ defined ∈ program.functionNames, PlainName defined :=
      fun defined hdefined => Block.plainName_of_function hread hdefined
    rw [importFile_of_use_ok htarget huse] at hload
    cases hload with
    | @installed imported evaluated found closed himports hconstants hclosed hnames =>
      have hfound := names_of_constants hconstants
      obtain ⟨hfunction, hconstant⟩ := reaches_installed path m evaluated hplain hfound hnames
      refine ⟨NameTable.get?_set_self _ _ _, imported, evaluated, found, himports, ?_, hconstants,
        hconstant, fun hsame => ⟨hfunction hsame, means_installed hplain hfound hnames hsame⟩⟩
      intro hnone
      rw [importNested_of_none run hnone] at himports
      cases himports
      rfl

/-- A machine beside two module files. -/
def besideTwoModules : Machine := {
  files := { entries := [
    (["one.myco".toList], .file (Text.bytesOf "func f(): return 1; end")),
    (["two.myco".toList], .file (Text.bytesOf "let value = 2;"))] } }

/-- One alias for both modules, one after the other, and a call of the function of the first. -/
def reusedAlias : Block := [
  .use 1 (.path "./one") "x", .use 2 (.path "./two") "x",
  .print 3 [.call 3 (.member 3 (.var 3 "x") "f") []]]

/-- The alias stands for the second module, but the function of the first is still called. -/
theorem function_of_earlier_module_called :
    let after := Outcome.machine (Eval.runProgram reusedAlias besideTwoModules)
    after.Reachable ∧ after.output.written = "1\n" ∧
      ∃ module, after.modules.get? "x" = some module ∧ ¬ after.MeansModule "x" module := by
  intro after
  have hprinted : after.output.written = "1\n" := by decide +kernel
  have hreached : after.ReachesFunction "x" "f" := by
    show (Option.isSome _) = true
    decide +kernel
  have hmissing : (after.modules.get? "x").any (!·.hasFunction "f") = true := by decide +kernel
  refine ⟨.program _ (.fresh ⟨rfl, rfl, rfl, rfl, rfl, rfl, rfl⟩), hprinted, ?_⟩
  obtain ⟨module, hbound, hlacks⟩ := (Option.any_eq_true _ _).mp hmissing
  refine ⟨module, hbound, fun hmeans => ?_⟩
  rw [hmeans.1 "f" hreached] at hlacks
  cases hlacks

end DecimalScript
