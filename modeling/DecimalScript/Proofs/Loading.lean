import DecimalScript.Proofs.ScopeIsolation

/-!
# How a module is loaded

Loading a module file that was read has three stages: its own imports, the registration of its
functions, and the evaluation of its constants in a scope that is closed again. A stop at the first
or the last of them ends the load. Only after all of them the constants are bound under the alias
and the alias is bound to the module.
-/

namespace DecimalScript

namespace Environment

/-- Assigning binds the name that is assigned and keeps the others. -/
theorem mem_names_assign {env : Environment} {name other : String} {value : Value} :
    other ∈ (env.assign name value).names ↔ other = name ∨ other ∈ env.names := by
  unfold assign
  split
  · rename_i hbound
    rw [names_write]
    refine ⟨.inr, fun h => h.elim (fun heq => ?_) id⟩
    rw [heq]
    exact binds_iff.mp hbound
  · exact List.mem_cons

end Environment

namespace Machine

/-- Names are only added in front of others. -/
theorem Evolves.names_suffix {m after : Machine} (h : m.Evolves after) :
    m.env.names <:+ after.env.names := by
  obtain ⟨newer, older, hafter, hnames, hkept⟩ :=
    h.persists m.env.bindings [] (List.append_nil _).symm
  cases hkept
  rw [List.append_nil] at hafter
  rw [Environment.names, Environment.names, hafter]
  exact hnames

/-- The machine in which a module file begins its own imports. -/
def importing (path : Path) (m : Machine) : Machine := { m with
  loading := path.canonical :: m.loading
  baseDir := path.parent }

/-- The machine with the functions of a module, given the one that its own imports led to. -/
def registering (m : Machine) (aliasName : String) (program : Block) (imported : Machine) :
    Machine := { imported with
  baseDir := m.baseDir
  functions := Eval.registerFunctions aliasName program imported.functions }

/-- The machine with a scope opened for the constants of a module. -/
def opening (m : Machine) : Machine := { m with env := m.env.pushScope }

/-- A scope that was opened can be closed, with the names that there were before. -/
theorem Evolves.popScope {m after : Machine} (h : m.opening.Evolves after) :
    ∃ closed, after.env.popScope? = some closed ∧ closed.scopes = m.env.scopes ∧
      closed.names = m.env.names := by
  obtain ⟨closed, hclosed, hscopes, hnames, _⟩ :=
    Environment.popScope_of_pushed h.scopes h.names_suffix
  exact ⟨closed, hclosed, hscopes, hnames⟩

/-- The machine in which the load of a module is over, given its constants, the machine after them
and the variables without their scope. -/
def installed (path : Path) (program : Block) (aliasName : String) (found : List (String × Value))
    (closed : Environment) (evaluated : Machine) : Machine := { evaluated with
  env := Eval.assignConstants aliasName closed found
  loading := evaluated.loading.tail
  modules := evaluated.modules.set aliasName (.source path program) }

end Machine

namespace Eval

/-- Binding constants under an alias keeps the names, and binds each constant. -/
theorem mem_names_assignConstants {aliasName name : String} {env : Environment}
    {found : List (String × Value)} : name ∈ (assignConstants aliasName env found).names ↔
      name ∈ env.names ∨ ∃ entry ∈ found, name = qualified aliasName entry.1 := by
  induction found generalizing env with
  | nil => exact ⟨.inl, fun h => h.elim id fun ⟨entry, hentry, _⟩ => nomatch hentry⟩
  | cons entry rest ih =>
    have hrest : name ∈ (assignConstants aliasName env (entry :: rest)).names ↔
        name ∈ (env.assign (qualified aliasName entry.1) entry.2).names ∨
          ∃ later ∈ rest, name = qualified aliasName later.1 := ih
    rw [hrest, Environment.mem_names_assign, List.exists_mem_cons_iff]
    tauto

/-- The constants that were evaluated are those that the module declares. -/
theorem names_of_constants {run : JobRunner} {program : Block} {found : List (String × Value)}
    {m after : Machine} (h : constants run program m = .ok found after) :
    found.map (·.1) = program.constantNames := by
  induction program generalizing found m with
  | nil =>
    cases h
    rfl
  | cons stmt rest ih =>
    cases stmt with
    | declare line name typed expr =>
      unfold constants at h
      cases hvalue : run (.evaluate expr) m with
      | error stop stopped =>
        rw [bind_of_error hvalue] at h
        cases h
      | ok value ready =>
        rw [bind_of_ok hvalue] at h
        cases hrest : constants run rest { ready with env := ready.env.define name value } with
        | error stop stopped =>
          have hstopped := (bind_of_error hrest).symm.trans h
          cases hstopped
        | ok others done =>
          have hdone := (bind_of_ok hrest).symm.trans h
          cases hdone
          exact congrArg (name :: ·) (ih hrest)
    | _ => exact ih h

/-- How the load of a module goes, from a machine to what it ends with. -/
inductive Loading (run : JobRunner) (path : Path) (program : Block) (aliasName : String)
    (m : Machine) : Outcome Unit → Prop
  /-- An import of the module stops. -/
  | unimported {stop : Stop} {imported : Machine}
      (himports : importNested run program (m.importing path) = .error stop imported) :
      Loading run path program aliasName m (.error stop { imported with
        baseDir := m.baseDir
        loading := imported.loading.tail })
  /-- A constant of the module stops. -/
  | unevaluated {stop : Stop} {imported failed : Machine} {closed : Environment}
      (himports : importNested run program (m.importing path) = .ok () imported)
      (hconstants : constants run program (m.registering aliasName program imported).opening =
        .error stop failed)
      (hclosed : failed.env.popScope? = some closed) (hnames : closed.names = imported.env.names) :
      Loading run path program aliasName m (.error stop { failed with
        env := closed
        loading := failed.loading.tail })
  /-- The module is installed. -/
  | installed {imported evaluated : Machine} {found : List (String × Value)}
      {closed : Environment}
      (himports : importNested run program (m.importing path) = .ok () imported)
      (hconstants : constants run program (m.registering aliasName program imported).opening =
        .ok found evaluated)
      (hclosed : evaluated.env.popScope? = some closed)
      (hnames : closed.names = imported.env.names) :
      Loading run path program aliasName m
        (.ok () (evaluated.installed path program aliasName found closed))

variable {run : JobRunner} {m : Machine} {target : ModuleRef} {aliasName : String} {line : Nat}
  {program : Block}

/-- A file that is being loaded already is skipped. -/
theorem importFile_of_loading
    (h : (Path.ofModule m.baseDir target.text).canonical ∈ m.loading) :
    importFile run target aliasName line m = .ok () m := by
  show (if m.loading.contains (Path.ofModule m.baseDir target.text).canonical = true
    then (pure () : Eval Unit) else _) m = _
  rw [if_pos (by simpa using h)]
  rfl

/-- A file that holds no program is reported. -/
theorem importFile_of_unreadable {failure : Failure}
    (hnew : (Path.ofModule m.baseDir target.text).canonical ∉ m.loading)
    (hread : Block.ofFile m.files (Path.ofModule m.baseDir target.text) =
      .error (.failed failure)) :
    importFile run target aliasName line m =
      report line (loadFailure target.text failure) m := by
  show (if m.loading.contains (Path.ofModule m.baseDir target.text).canonical = true
    then (pure () : Eval Unit) else _) m = _
  rw [if_neg (by simpa using hnew), hread]

/-- A report changes nothing but the reports. -/
theorem machine_report (line : Nat) (message : String) (m : Machine) :
    ∃ errors, Outcome.machine (report line message m) = { m with errors } := by
  show ∃ errors, Outcome.machine (writeError (reportText m.color line message) m) = _
  rw [writeError_eq]
  split <;> exact ⟨_, rfl⟩

/-- A scope is closed after a value. -/
theorem inScope_ok {α : Type} {body : Eval α} {value : α} {m after : Machine}
    {closed : Environment} (h : body m.opening = .ok value after)
    (hclosed : after.env.popScope? = some closed) :
    inScope body m = .ok value { after with env := closed } := by
  show leaveScope _ 0 0 (body m.opening) = _
  rw [h, leaveScope_ok hclosed]
  rfl

/-- A scope is closed after a stop. -/
theorem inScope_error {α : Type} {body : Eval α} {stop : Stop} {m after : Machine}
    {closed : Environment} (h : body m.opening = .error stop after)
    (hclosed : after.env.popScope? = some closed) :
    inScope body m = .error stop { after with env := closed } := by
  show leaveScope _ 0 0 (body m.opening) = _
  rw [h, leaveScope_error hclosed]
  rfl

/-- After its imports a module is installed from its constants on. -/
theorem install_of_imports (aliasName : String) {path : Path} {imported : Machine}
    (h : importNested run program (m.importing path) = .ok () imported) :
    install run path program aliasName { m with loading := path.canonical :: m.loading } = (do
      let found ← inScope (constants run program)
      modify fun m => { m with env := assignConstants aliasName m.env found } : Eval Unit)
        (m.registering aliasName program imported) := by
  have hdirectory : inDirectory path.parent (importNested run program)
      { m with loading := path.canonical :: m.loading } =
        .ok () { imported with baseDir := m.baseDir } := afterwards_ok h
  exact bind_of_ok hdirectory

/-- A module is loaded in stages. -/
theorem loading_whileLoading (hrun : ∀ {α : Type} (job : Job α), Moves (run job)) (path : Path)
    (program : Block) (aliasName : String) (m : Machine) :
    Loading run path program aliasName m ((do
      whileLoading path (install run path program aliasName)
      bindModule aliasName (.source path program) : Eval Unit) m) := by
  cases himports : importNested run program (m.importing path) with
  | error stop imported =>
    have hdirectory : inDirectory path.parent (importNested run program)
        { m with loading := path.canonical :: m.loading } =
          .error stop { imported with baseDir := m.baseDir } := afterwards_error himports
    have hload : whileLoading path (install run path program aliasName) m =
        .error stop { imported with baseDir := m.baseDir, loading := imported.loading.tail } :=
      afterwards_error (bind_of_error hdirectory)
    rw [bind_of_error hload]
    exact .unimported himports
  | ok done imported =>
    have hinstall := install_of_imports aliasName himports
    have hmoves := Moves.constants hrun program (m.registering aliasName program imported).opening
    cases hconstants : constants run program (m.registering aliasName program imported).opening with
    | error stop failed =>
      rw [hconstants, Outcome.machine_error] at hmoves
      obtain ⟨closed, hclosed, _, hnames⟩ := hmoves.popScope
      have hstopped := hinstall.trans (bind_of_error (inScope_error hconstants hclosed))
      have hload : whileLoading path (install run path program aliasName) m =
          .error stop { failed with env := closed, loading := failed.loading.tail } :=
        afterwards_error hstopped
      rw [bind_of_error hload]
      exact .unevaluated himports hconstants hclosed hnames
    | ok found evaluated =>
      rw [hconstants, Outcome.machine_ok] at hmoves
      obtain ⟨closed, hclosed, _, hnames⟩ := hmoves.popScope
      have hdone := hinstall.trans (bind_of_ok (inScope_ok hconstants hclosed))
      have hload : whileLoading path (install run path program aliasName) m = .ok ()
          { evaluated with
            env := assignConstants aliasName closed found
            loading := evaluated.loading.tail } := afterwards_ok hdone
      rw [bind_of_ok hload]
      exact .installed himports hconstants hclosed hnames

/-- A file that was read is loaded in stages. -/
theorem loading_importFile (hrun : ∀ {α : Type} (job : Job α), Moves (run job))
    (hnew : (Path.ofModule m.baseDir target.text).canonical ∉ m.loading)
    (hread : Block.ofFile m.files (Path.ofModule m.baseDir target.text) = .ok program)
    (aliasName : String) (line : Nat) :
    Loading run (Path.ofModule m.baseDir target.text) program aliasName m
      (importFile run target aliasName line m) := by
  have hload := loading_whileLoading hrun (Path.ofModule m.baseDir target.text) program aliasName m
  show Loading run _ program aliasName m
    ((if m.loading.contains (Path.ofModule m.baseDir target.text).canonical = true
      then (pure () : Eval Unit) else _) m)
  rw [if_neg (by simpa using hnew), hread]
  exact hload

/-- A module without imports begins with its functions. -/
theorem importNested_of_none (run : JobRunner)
    (h : program.any Stmt.isImport = false) (m : Machine) :
    importNested run program m = .ok () m := by
  induction program with
  | nil => rfl
  | cons stmt rest ih =>
    obtain ⟨hfirst, hrest⟩ := Bool.or_eq_false_iff.mp h
    cases stmt with
    | use line target aliasName => cases hfirst
    | _ => exact ih hrest

/-- An import of a file ends as the load of the file does. -/
theorem execute_use_of_file (htarget : importedLibrary? target = none) (line : Nat)
    (aliasName : String) : execute run (.use line target aliasName) = (do
      importFile run target aliasName line
      return .normal) := by
  show (do importModule run target aliasName line; return Flow.normal) = _
  unfold importModule
  rw [htarget]

/-- An import of a file that ended has loaded the file. -/
theorem importFile_of_use_ok {flow : Flow} {after : Machine}
    (htarget : importedLibrary? target = none)
    (h : execute run (.use line target aliasName) m = .ok flow after) :
    importFile run target aliasName line m = .ok () after := by
  rw [execute_use_of_file htarget] at h
  cases hfile : importFile run target aliasName line m with
  | error stop stopped =>
    rw [bind_of_error hfile] at h
    cases h
  | ok done loaded =>
    rw [bind_of_ok hfile] at h
    cases h
    rfl

/-- An import of a file that stopped has stopped in the load of the file. -/
theorem importFile_of_use_error {stop : Stop} {after : Machine}
    (htarget : importedLibrary? target = none)
    (h : execute run (.use line target aliasName) m = .error stop after) :
    importFile run target aliasName line m = .error stop after := by
  rw [execute_use_of_file htarget] at h
  cases hfile : importFile run target aliasName line m with
  | error stopped failed =>
    rw [bind_of_error hfile] at h
    cases h
    rfl
  | ok done loaded =>
    rw [bind_of_ok hfile] at h
    cases h

end Eval

end DecimalScript
