import DecimalScript.Proofs.DistinctFields
import DecimalScript.Proofs.Promises

/-!
# Modules that are registered are complete

In every machine that can be reached, an alias that stands for a module file has all functions of
the module, since functions are registered for good. It has all constants of the module too, unless
the alias was bound in a call or in a guarded block: what is bound there is dropped at the end, and
the alias is not.
-/

namespace DecimalScript

/-- Whatever an observer says of a job, the machine is the one that the job led to. -/
theorem Observer.machine_check (observer : Observer) {α : Type} (job : Job α) (m : Machine)
    (outcome : Outcome α) :
    Outcome.machine (Observer.check observer job m outcome) = Outcome.machine outcome := by
  unfold Observer.check
  split
  · rfl
  · rfl

namespace Job

variable {α : Type}

/-- Observed jobs evolve their machine. -/
theorem moves_performObserved (observer : Observer) (depth : Nat) (job : Job α) :
    Eval.Moves (performObserved observer depth job) := by
  induction depth generalizing α with
  | zero => exact .exhausted
  | succ depth ih =>
    intro m
    show m.Evolves (Outcome.machine (Observer.check observer job m _))
    rw [Observer.machine_check]
    exact Eval.Moves.step (fun nested => ih nested) job m

/-- A job that is not refused ends as it does where only nested jobs are observed, and is
accepted. -/
theorem accepted_of_performObserved {observer : Observer} {depth : Nat} {job : Job α} {m : Machine}
    (h : Outcome.stop? (performObserved observer (depth + 1) job m) ≠ some Watch.refusal) :
    performObserved observer (depth + 1) job m =
        step (fun nested => performObserved observer depth nested) job m ∧
      observer job m (step (fun nested => performObserved observer depth nested) job m) = true := by
  by_cases haccepts : observer job m
      (step (fun nested => performObserved observer depth nested) job m) = true
  · exact ⟨Observer.check_of_accepts haccepts, haccepts⟩
  · refine absurd ?_ h
    show Outcome.stop? (Observer.check observer job m _) = _
    unfold Observer.check
    rw [if_neg haccepts]
    rfl

variable {aliasName : String}

/-- An expression that is not refused adds no promise. -/
theorem addsNone_performObserved (depth : Nat) (expr : Expr) :
    Eval.AddsNone aliasName
      (performObserved (Observer.steadfast aliasName) depth (.evaluate expr)) := by
  intro m h
  cases depth with
  | zero => exact fun _ hname => hname
  | succ depth =>
    obtain ⟨hsame, haccepts⟩ := accepted_of_performObserved h
    rw [hsame]
    intro name hname
    simpa using List.all_eq_true.mp haccepts name hname

/-- A statement that is not refused breaks no promise, by induction on the bound on nesting. -/
theorem honours_performObserved (depth : Nat) (stmt : Stmt) :
    Eval.Honours aliasName
      (performObserved (Observer.steadfast aliasName) depth (.execute stmt)) := by
  induction depth generalizing stmt with
  | zero => exact .exhausted
  | succ depth ih =>
    intro m hm h
    obtain ⟨hsame, haccepts⟩ := accepted_of_performObserved h
    rw [hsame] at h ⊢
    have hmoves {β : Type} (nested : Job β) :=
      moves_performObserved (Observer.steadfast aliasName) depth nested
    by_cases hguarded : ∃ line body failure handler, stmt = .attempt line body failure handler
    · obtain ⟨line, body, failure, handler, rfl⟩ := hguarded
      have hevolves := Eval.Moves.step hmoves (.execute (.attempt line body failure handler)) m
      refine hm.of_shrinks (fun name hname => ?_) hevolves.names_suffix.subset
      simpa using List.all_eq_true.mp haccepts name hname
    · have hplain : ∀ line body failure handler, stmt ≠ .attempt line body failure handler :=
        fun line body failure handler heq => hguarded ⟨line, body, failure, handler, heq⟩
      have hhonours : Eval.Honours aliasName (Eval.execute (fun nested =>
          performObserved (Observer.steadfast aliasName) depth nested) stmt) :=
        .execute hmoves (addsNone_performObserved depth) ih hplain
      exact hhonours m hm h

end Job

namespace Eval

variable {aliasName : String}

/-- The statements of a program, where faults are reported and a refusal ends the run at once. -/
theorem keeps_runStatements {run : JobRunner}
    (hstmt : ∀ stmt, Honours aliasName (run (.execute stmt))) (program : Block) {m : Machine}
    (hm : m.Keeps aliasName)
    (h : Outcome.stop? (runStatements (fun job m => Watch.atOnce (run job m)) program m) ≠
      some .exhausted) :
    (Outcome.machine
      (runStatements (fun job m => Watch.atOnce (run job m)) program m)).Keeps aliasName := by
  induction program generalizing m with
  | nil =>
    show (Outcome.machine (flush m)).Keeps aliasName
    rwa [machine_flush]
  | cons stmt rest ih =>
    have hfirst := hstmt stmt m hm
    simp only [runStatements] at h ⊢
    generalize run (.execute stmt) m = r at hfirst h ⊢
    cases r with
    | ok flow after =>
      have hkept : after.Keeps aliasName := hfirst (by simp)
      cases flow with
      | giveBack value =>
        show (Outcome.machine (flush after)).Keeps aliasName
        rwa [machine_flush]
      | normal | leave | next => exact ih hkept h
    | error stop after =>
      cases stop with
      | exhausted => exact absurd rfl h
      | failed failure =>
        cases failure with
        | io _ | lexical _ | syntactic _ | loop _ =>
          show (Outcome.machine (abandon _ after)).Keeps aliasName
          rw [machine_abandon]
          exact hfirst (by simp [Watch.refusal])
        | running fault =>
          cases hfatal : fault.isFatal with
          | true => simp [Watch.atOnce, hfatal] at h
          | false =>
            have hunrefused : some (.failed (.running fault)) ≠ some Watch.refusal := by
              intro heq
              cases heq
              cases hfatal
            have hkept : after.Keeps aliasName := hfirst hunrefused
            simp only [Watch.atOnce, hfatal, Bool.false_eq_true, if_false] at h ⊢
            have hreport := Honours.report fault.line fault.message after hkept
            cases hreported : report fault.line fault.message after with
            | ok _ reported =>
              rw [hreported] at hreport
              rw [bind_of_ok hreported] at h ⊢
              exact ih (hreport (by simp)) h
            | error stop reported =>
              obtain ⟨_, rfl⟩ := stop_of_report hreported
              rw [hreported] at hreport
              rw [bind_of_error hreported]
              exact hreport (by simp [Watch.refusal])

end Eval

namespace Machine

/-- The machines that runs lead to in which no evaluation of an expression and no guarded block
leaves an alias with a constant to promise that it did not promise before. -/
inductive ReachableSteadily (aliasName : String) : Machine → Prop
  | fresh {m : Machine} (h : m.IsFresh) : ReachableSteadily aliasName m
  | program {m : Machine} (program : Block) (h : ReachableSteadily aliasName m)
      (hunseen : Eval.runObserved (Observer.steadfast aliasName) program m =
        Eval.runProgram program m) :
      ReachableSteadily aliasName (Outcome.machine (Eval.runProgram program m))
  | block {m : Machine} (block : Block) (h : ReachableSteadily aliasName m)
      (hunseen : Eval.executeBlock (fun job => Job.performObserved (Observer.steadfast aliasName)
          (m.nestingBound (Stmt.sizeAll block) (Stmt.importsAny block)) job) block m =
        Eval.runBlock block m) :
      ReachableSteadily aliasName (Outcome.machine (Eval.runBlock block m))
  | expr {m : Machine} (expr : Expr) (h : ReachableSteadily aliasName m)
      (hunseen : Job.performObserved (Observer.steadfast aliasName)
          (m.nestingBound expr.size false) (.evaluate expr) m = Eval.runExpr expr m) :
      ReachableSteadily aliasName (Outcome.machine (Eval.runExpr expr m))
  | surroundings {m : Machine} (files : FileTree) (input : List UInt8) (output errors : Sink)
      (h : ReachableSteadily aliasName m) :
      ReachableSteadily aliasName { m with files, input, output, errors }

variable {aliasName : String} {m : Machine}

theorem ReachableSteadily.reachable (h : m.ReachableSteadily aliasName) : m.Reachable := by
  induction h with
  | fresh h => exact .fresh h
  | program program _ _ ih => exact .program program ih
  | block block _ _ ih => exact .block block ih
  | expr expr _ _ ih => exact .expr expr ih
  | surroundings files input output errors _ ih => exact .surroundings files input output errors ih

/-- A machine that has run nothing has no aliases. -/
theorem IsFresh.get?_modules (h : m.IsFresh) (aliasName : String) :
    m.modules.get? aliasName = none := by
  rw [h.modules]
  rfl

/-- No run is refused by an observer that makes no difference to it. -/
theorem ReachableSteadily.keeps (h : m.ReachableSteadily aliasName) : m.Keeps aliasName := by
  induction h with
  | @fresh m h =>
    intro name hname
    unfold promised at hname
    rw [h.get?_modules] at hname
    cases hname
  | @program m program _ hunseen ih =>
    rw [← hunseen]
    refine Eval.keeps_runStatements (Job.honours_performObserved _) program ih ?_
    rw [show Eval.runStatements _ program m = _ from hunseen]
    rcases Eval.runProgram_ok_or_io program m with ⟨after, hrun⟩ | ⟨_, after, _, hrun⟩
    · rw [hrun]
      nofun
    · rw [hrun]
      nofun
  | @block m block _ hunseen ih =>
    rw [← hunseen]
    refine Eval.Honours.executeBlock (Job.honours_performObserved _) block m ih ?_
    rw [hunseen]
    intro hstop
    have hpossible := (Balance.settled_executeBlock _ block m).possible _ hstop
    exact Bool.noConfusion hpossible
  | @expr m expr _ hunseen ih =>
    rw [← hunseen]
    refine (Job.addsNone_performObserved _ expr).honours (Job.moves_performObserved _ _ _) m ih ?_
    rw [hunseen]
    exact Job.perform_ne_badMemory _ _ m _ _
  | surroundings files input output errors _ ih => exact ih.congr rfl rfl

/-- Every alias that stands for a module file has the functions of the module. -/
def RegistersAll (m : Machine) : Prop := ∀ aliasName path program,
  m.modules.get? aliasName = some (.source path program) → m.Registers aliasName program

theorem Effect.registersAll {after : Machine} (h : m.Effect after) (hm : m.RegistersAll) :
    after.RegistersAll := by
  have hregisters {aliasName : String} {program : Block} (hbefore : m.Registers aliasName program) :
      after.Registers aliasName program := (Evolves.effect h).registers hbefore
  cases h with
  | @bindModule bound module hadmits =>
    intro aliasName path program hbound
    by_cases hsame : aliasName = bound
    · subst hsame
      refine hregisters (hadmits path program ?_)
      simpa using hbound
    · refine hregisters (hm aliasName path program ?_)
      rwa [NameTable.get?_set_of_ne m.modules hsame] at hbound
  | register name function =>
    exact fun aliasName path program hbound => hregisters (hm aliasName path program hbound)
  | console | reported | refused | define | write | advance | tick => exact hm

theorem Evolves.registersAll {after : Machine} (h : m.Evolves after) (hm : m.RegistersAll) :
    after.RegistersAll := by
  induction h with
  | refl m => exact hm
  | effect h => exact h.registersAll hm
  | trans _ _ ih ih' => exact ih' (ih hm)
  | loop _ _ ih | scope _ _ _ _ _ ih | directory _ _ ih | loading _ _ _ ih | rollback _ ih
  | recover _ _ _ ih => exact ih hm

theorem Reachable.registersAll (h : m.Reachable) : m.RegistersAll := by
  have hrun (depth : Nat) {α : Type} (job : Job α) := Job.moves_perform depth job
  induction h with
  | fresh h =>
    intro aliasName path program hbound
    rw [h.get?_modules] at hbound
    cases hbound
  | program program _ ih => exact (Eval.moves_runProgram program _).registersAll ih
  | block block _ ih => exact (Eval.Moves.executeBlock (hrun _) block _).registersAll ih
  | expr expr _ ih => exact (hrun _ (.evaluate expr) _).registersAll ih
  | @library m library name arguments line called hcalled _ ih =>
    obtain ⟨builtin, hbuiltin, rfl⟩ := Option.map_eq_some_iff.mp hcalled
    have hmoves := library.moves_builtins (name, builtin) (NameTable.mem_of_get? hbuiltin)
    exact (Eval.Moves.callBuiltin (hrun _) hmoves _ arguments line m).registersAll ih
  | surroundings files input output errors _ ih => exact ih

end Machine

/-- An import that ends leaves its alias with all it promises, whatever its calls did. -/
theorem Eval.keeps_importModule {run : JobRunner}
    (hmoves : ∀ {α : Type} (job : Job α), Moves (run job)) {target : ModuleRef}
    {aliasName : String} {line : Nat} {m after : Machine} (hm : m.Keeps aliasName)
    (h : importModule run target aliasName line m = .ok () after) : after.Keeps aliasName := by
  unfold importModule at h
  cases htarget : importedLibrary? target with
  | some library =>
    rw [htarget] at h
    cases h
    exact hm.bindLibrary aliasName library
  | none =>
    rw [htarget] at h
    dsimp only at h
    by_cases hloading : (Path.ofModule m.baseDir target.text).canonical ∈ m.loading
    · rw [importFile_of_loading hloading] at h
      cases h
      exact hm
    cases hread : Block.ofFile m.files (Path.ofModule m.baseDir target.text) with
    | error stop =>
      cases stop with
      | exhausted => exact absurd hread (Block.ofFile_ne_exhausted _ _)
      | failed failure =>
        rw [importFile_of_unreadable hloading hread] at h
        have hreport := Honours.report line (loadFailure target.text failure) m hm
        rw [h] at hreport
        exact hreport nofun
    | ok program =>
      have hload := loading_importFile hmoves hloading hread aliasName line
      rw [h] at hload
      cases hload with
      | @installed imported evaluated found closed himports hconstants hclosed hnames =>
        exact Machine.keeps_installed (names_of_constants hconstants) closed evaluated

/-- In every machine that can be reached, an alias that stands for a module file has all functions
that the module defines. It has all constants that the module declares, unless a call or a guarded
block on the way left the alias with a constant to promise that it did not promise before. By itself
every import leaves its alias with all constants, wherever it is executed. -/
theorem registered_modules_complete :
    (∀ m : Machine, m.Reachable → ∀ aliasName path program,
      m.modules.get? aliasName = some (.source path program) →
      ∀ name ∈ program.functionNames,
        (m.functions.get? (Eval.qualified aliasName name)).isSome) ∧
    (∀ aliasName (m : Machine), m.ReachableSteadily aliasName → ∀ path program,
      m.modules.get? aliasName = some (.source path program) →
      ∀ name ∈ program.constantNames, m.env.binds (Eval.qualified aliasName name)) ∧
    (∀ depth line target aliasName m flow after, m.Keeps aliasName →
      Job.perform depth (.execute (.use line target aliasName)) m = .ok flow after →
      after.Keeps aliasName) := by
  refine ⟨fun m h aliasName path program hbound => h.registersAll aliasName path program hbound,
    ?_, ?_⟩
  · intro aliasName m h path program hbound name hname
    refine Environment.binds_iff.mpr (h.keeps name ?_)
    unfold Machine.promised
    rwa [hbound]
  · intro depth line target aliasName m flow after hm h
    cases depth with
    | zero => cases h
    | succ depth =>
      change (do Eval.importModule (fun nested => Job.perform depth nested) target aliasName line
                 return Flow.normal : Eval Flow) m = _ at h
      cases himport : Eval.importModule (fun nested => Job.perform depth nested) target aliasName
          line m with
      | error stop stopped =>
        rw [Eval.bind_of_error himport] at h
        cases h
      | ok done imported =>
        rw [Eval.bind_of_ok himport] at h
        cases h
        exact Eval.keeps_importModule (fun job => Job.moves_perform depth job) hm himport

/-- A module with a constant and a function, used at the top level of a program. The alias promises
both, no evaluation on the way adds a promise, and both are there. -/
theorem registered_modules_complete_of_use :
    let m : Machine := { files := { entries := [
      (["m.myco".toList], .file (Text.bytesOf "let c = 1; func f(): return c; end"))] } }
    let after := Outcome.machine (Eval.runProgram [.use 1 (.path "./m") "m"] m)
    after.ReachableSteadily "m" ∧ ∃ path program,
      after.modules.get? "m" = some (.source path program) ∧
        program.constantNames = ["c"] ∧ after.env.binds (Eval.qualified "m" "c") ∧
        program.functionNames = ["f"] ∧ (after.functions.get? (Eval.qualified "m" "f")).isSome := by
  intro m after
  have hobserved : Eval.runObserved (Observer.steadfast "m") [.use 1 (.path "./m") "m"] m =
      Eval.runProgram [.use 1 (.path "./m") "m"] m :=
    Transparency.runObserved_of_ok (by decide +kernel)
  have hsteady : after.ReachableSteadily "m" :=
    .program _ (.fresh ⟨rfl, rfl, rfl, rfl, rfl, rfl, rfl⟩) hobserved
  obtain ⟨hfunctions, hconstants, -⟩ := registered_modules_complete
  have hpromised : after.promised "m" = ["c"] := by decide +kernel
  have hdefined : ((after.modules.get? "m").map fun
      | .source _ program => program.functionNames
      | .library _ => []) = some ["f"] := by decide +kernel
  refine ⟨hsteady, ?_⟩
  unfold Machine.promised at hpromised
  split at hpromised
  · rename_i path program hbound
    rw [hbound] at hdefined
    have hnames : program.functionNames = ["f"] := Option.some.inj hdefined
    refine ⟨path, program, hbound, hpromised, ?_, hnames, ?_⟩
    · exact hconstants "m" after hsteady path program hbound "c"
        (hpromised ▸ List.mem_singleton_self "c")
    · exact hfunctions after hsteady.reachable "m" path program hbound "f"
        (hnames ▸ List.mem_singleton_self "f")
  · cases hpromised
  · cases hpromised

/-- A machine beside a module file with one constant. -/
def besideConstant : Machine := {
  files := { entries := [(["m.myco".toList], .file (Text.bytesOf "let c = 1;"))] } }

/-- A function that imports the module, and a call of it. -/
def importInCall : Block := [
  .define 1 "f" [] none [.use 1 (.path "./m") "m"],
  .evaluate (.call 2 (.var 2 "f") [])]

/-- After the call the alias stands for the module, but its constant is gone. -/
theorem constant_lost_after_call :
    let after := Outcome.machine (Eval.runProgram importInCall besideConstant)
    after.Reachable ∧ ∃ path program, after.modules.get? "m" = some (.source path program) ∧
      "c" ∈ program.constantNames ∧ after.env.binds (Eval.qualified "m" "c") = false := by
  intro after
  have hpromised : after.promised "m" = ["c"] := by decide +kernel
  have hlost : after.env.binds (Eval.qualified "m" "c") = false := by decide +kernel
  refine ⟨.program _ (.fresh ⟨rfl, rfl, rfl, rfl, rfl, rfl, rfl⟩), ?_⟩
  unfold Machine.promised at hpromised
  split at hpromised
  · rename_i path program hbound
    exact ⟨path, program, hbound, hpromised ▸ List.mem_singleton_self "c", hlost⟩
  · cases hpromised
  · cases hpromised

end DecimalScript
