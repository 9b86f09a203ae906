import DecimalScript.Proofs.Loading
import DecimalScript.Proofs.Runs

/-!
# Imports that fail

A module file that cannot be read or holds no program is reported, and nothing else happens. A
module that fails later leaves behind what was done before the failure: the effects of its own
imports, and once these are over, its functions under both of their names. The variables that it
bound for its constants are gone, and the alias is not bound.
-/

namespace DecimalScript

/-- What an import that does not install its module should leave alone. The values of variables may
change, by calls. -/
structure Machine.Untouched (m after : Machine) : Prop where
  functions : after.functions = m.functions
  modules : after.modules = m.modules
  names : after.env.names = m.env.names
  scopes : after.env.scopes = m.env.scopes

namespace Eval

/-- A module without functions registers none. -/
theorem registerFunctions_of_none {aliasName : String} {program : Block}
    (h : program.functionNames = []) (functions : NameTable Function) :
    registerFunctions aliasName program functions = functions := by
  induction program with
  | nil => rfl
  | cons stmt rest ih =>
    cases stmt with
    | define line name params returnType body => cases h
    | _ => exact ih h

/-- A module registers each function under its plain name too. -/
theorem isSome_registerFunctions_plain {aliasName name : String} {program : Block}
    (hname : name ∈ program.functionNames) (functions : NameTable Function) :
    ((registerFunctions aliasName program functions).get? name).isSome := by
  induction program generalizing functions with
  | nil => cases hname
  | cons stmt rest ih =>
    cases stmt with
    | define line first params returnType body =>
      rcases List.mem_cons.mp hname with rfl | hlater
      · refine Moves.isSome_registerFunctions rest ?_
        exact (NameTable.isSome_get?_set _ _ _ _).mpr (.inl rfl)
      · exact ih hlater _
    | _ => exact ih hname functions

variable {run : JobRunner} {target : ModuleRef} {aliasName : String} {line : Nat} {m : Machine}

/-- An import of a file that holds no program reports that, and changes nothing but the reports. -/
theorem execute_use_of_unreadable {failure : Failure} (htarget : importedLibrary? target = none)
    (hnew : (Path.ofModule m.baseDir target.text).canonical ∉ m.loading)
    (hread : Block.ofFile m.files (Path.ofModule m.baseDir target.text) =
      .error (.failed failure)) :
    execute run (.use line target aliasName) m =
        (do report line (loadFailure target.text failure); return .normal : Eval Flow) m ∧
      ∃ errors, Outcome.machine (execute run (.use line target aliasName) m) =
        { m with errors } := by
  have hfile : importFile run target aliasName line m =
      report line (loadFailure target.text failure) m := importFile_of_unreadable hnew hread
  obtain ⟨errors, hmachine⟩ := machine_report line (loadFailure target.text failure) m
  rw [execute_use_of_file htarget]
  cases hreport : report line (loadFailure target.text failure) m with
  | ok done after =>
    rw [hreport] at hfile hmachine
    rw [bind_of_ok hfile, bind_of_ok hreport]
    exact ⟨rfl, errors, hmachine⟩
  | error stop after =>
    rw [hreport] at hfile hmachine
    rw [bind_of_error hfile, bind_of_error hreport]
    exact ⟨rfl, errors, hmachine⟩

/-- When a constant of a module stops, all functions of the module are registered. -/
theorem registered_of_unevaluated (hrun : ∀ {α : Type} (job : Job α), Moves (run job))
    {program : Block} {stop : Stop} {imported failed : Machine}
    (h : constants run program (m.registering aliasName program imported).opening =
      .error stop failed) {name : String} (hname : name ∈ program.functionNames) :
    (failed.functions.get? name).isSome ∧
      (failed.functions.get? (qualified aliasName name)).isSome := by
  have hmoves := (Moves.constants hrun program).of_error h
  have hregistered := Moves.registers_registerFunctions imported aliasName program
  exact ⟨hmoves.isSome_function (isSome_registerFunctions_plain hname imported.functions),
    hmoves.registers hregistered name hname⟩

/-- Where the constants of a module change no table, its functions are what it leaves behind. -/
theorem untouched_iff_of_unevaluated {program : Block} {failed after : Machine}
    (hmodules : failed.modules = m.modules)
    (hfunctions : failed.functions = registerFunctions aliasName program m.functions)
    (hafter : after.functions = failed.functions ∧ after.modules = failed.modules)
    (hnames : after.env.names = m.env.names) (hscopes : after.env.scopes = m.env.scopes) :
    (m.Untouched after ↔ registerFunctions aliasName program m.functions = m.functions) ∧
      (program.functionNames = [] → m.Untouched after) := by
  have hregistered := hafter.1.trans hfunctions
  have huntouched (h : registerFunctions aliasName program m.functions = m.functions) :
      m.Untouched after := ⟨hregistered.trans h, hafter.2.trans hmodules, hnames, hscopes⟩
  refine ⟨⟨fun h => hregistered.symm.trans h.functions, huntouched⟩, fun hnone => ?_⟩
  exact huntouched (registerFunctions_of_none hnone m.functions)

end Eval

open Eval

/-- A file that cannot be read or holds no program is reported, and only the reports change. When
an import stops, the scopes, calls, directory and loads in progress are as before. Either one of the
imports of the module stopped, and its effects stay; or a constant did, and the functions of the
module stay registered, so that nothing is left behind only where the module has no function that
is new. In a module that has no imports and whose constants change no table, it is exactly where
its functions were registered before just as it defines them. -/
theorem untouched_by_failed_import (depth line : Nat) (target : ModuleRef) (aliasName : String)
    (m : Machine) (htarget : importedLibrary? target = none)
    (hnew : (Path.ofModule m.baseDir target.text).canonical ∉ m.loading) :
    let run : JobRunner := fun job => Job.perform depth job
    let path := Path.ofModule m.baseDir target.text
    let use := Job.perform (depth + 1) (.execute (.use line target aliasName))
    (∀ failure, Block.ofFile m.files path = .error (.failed failure) →
      use m = (do report line (loadFailure target.text failure); return .normal : Eval Flow) m ∧
      ∃ errors, Outcome.machine (use m) = { m with errors }) ∧
    (∀ program stop after, Block.ofFile m.files path = .ok program → use m = .error stop after →
      after.env.scopes = m.env.scopes ∧ after.callDepth = m.callDepth ∧
      after.baseDir = m.baseDir ∧ after.loading = m.loading ∧
      ((∃ imported, importNested run program (m.importing path) = .error stop imported ∧
          (m.Untouched after ↔ m.Untouched imported)) ∨
        ∃ imported failed, importNested run program (m.importing path) = .ok () imported ∧
          constants run program (m.registering aliasName program imported).opening =
            .error stop failed ∧
          after.env.names = imported.env.names ∧
          (∀ name ∈ program.functionNames, (after.functions.get? name).isSome ∧
            (after.functions.get? (qualified aliasName name)).isSome) ∧
          (program.any Stmt.isImport = false → failed.modules = m.modules →
            failed.functions = registerFunctions aliasName program m.functions →
            (m.Untouched after ↔
              registerFunctions aliasName program m.functions = m.functions) ∧
            (program.functionNames = [] → m.Untouched after)))) := by
  intro run path use
  refine ⟨fun failure hread => execute_use_of_unreadable htarget hnew hread, ?_⟩
  intro program stop after hread hstop
  have hchanged := Job.changed_perform (depth + 1) (.execute (.use line target aliasName)) m
  rw [show Job.perform (depth + 1) (.execute (.use line target aliasName)) m = _ from hstop]
    at hchanged
  obtain ⟨hkept, _⟩ := hchanged
  refine ⟨hkept.scopes, hkept.callDepth, hkept.baseDir, hkept.loading, ?_⟩
  have hload : Loading run path program aliasName m (importFile run target aliasName line m) :=
    loading_importFile (fun job => Job.moves_perform depth job) hnew hread aliasName line
  rw [importFile_of_use_error htarget hstop] at hload
  -- A load that stopped has stopped before its functions were registered, or after.
  cases hload with
  | @unimported _ imported himports =>
    refine .inl ⟨imported, himports, ?_⟩
    exact ⟨fun h => ⟨h.functions, h.modules, h.names, h.scopes⟩,
      fun h => ⟨h.functions, h.modules, h.names, h.scopes⟩⟩
  | @unevaluated _ imported failed closed himports hconstants hclosed hnames =>
    refine .inr ⟨imported, failed, himports, hconstants, hnames, fun name hname => ?_, ?_⟩
    · exact registered_of_unevaluated (fun job => Job.moves_perform depth job) hconstants hname
    · intro himport hmodules hfunctions
      rw [importNested_of_none run himport] at himports
      cases himports
      exact untouched_iff_of_unevaluated hmodules hfunctions ⟨rfl, rfl⟩ hnames hkept.scopes

/-- A module file that does not exist. -/
theorem untouched_by_missing_file :
    importedLibrary? (.path "./m") = none ∧
      ∃ errors, Outcome.machine (Job.perform 1 (.execute (.use 1 (.path "./m") "m")) {}) =
        { ({} : Machine) with errors } := by
  have hmissing : FileTree.read {} (Path.ofModule ⟨"."⟩ "./m") = .error .notFound := by
    decide +kernel
  have hread : Block.ofFile {} (Path.ofModule ⟨"."⟩ "./m") = .error (.failed (.io .notFound)) := by
    unfold Block.ofFile
    rw [hmissing]
  have huntouched := untouched_by_failed_import 0 1 (.path "./m") "m" {} rfl List.not_mem_nil
  exact ⟨rfl, (huntouched.1 _ hread).2⟩

/-- A machine beside a module file with a function and a constant that cannot be evaluated. -/
def besideBrokenModule : Machine := {
  files := { entries := [(["m.myco".toList], .file
    (Text.bytesOf "func g(): return 7; end\nlet c = 1 / 0;"))] }
  color := false }

/-- The function stays in the registry, although the module is not installed. -/
theorem function_left_by_failed_import :
    let after := Outcome.machine (Eval.runProgram [.use 1 (.path "./m") "m"] besideBrokenModule)
    besideBrokenModule.IsFresh ∧ after.errors.written = "Line 2: Division by zero\n" ∧
      (after.modules.get? "m").isNone ∧ ¬ besideBrokenModule.Untouched after := by
  refine ⟨⟨rfl, rfl, rfl, rfl, rfl, rfl, rfl⟩, by decide +kernel, by decide +kernel, fun h => ?_⟩
  have hleft : ((Outcome.machine (Eval.runProgram [.use 1 (.path "./m") "m"]
    besideBrokenModule)).functions.get? "g").isSome = true := by decide +kernel
  rw [h.functions] at hleft
  cases hleft

end DecimalScript
