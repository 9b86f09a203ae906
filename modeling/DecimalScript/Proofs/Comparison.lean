import DecimalScript.Proofs.Bookkeeping
import DecimalScript.Proofs.Values

/-!
# Comparing evaluations

A comparison fixes what is claimed of two evaluations of the same thing: which machines
they start from, how much of the first machine may change, which values come out, and
in which cases nothing is claimed any more. Comparing an evaluation with itself states
an invariant. Everything here is about sequencing; what a comparison must satisfy for
the operations on machines is gathered in one structure.
-/

namespace DecimalScript

/-- What two evaluations are compared by. -/
structure Criteria where
  /-- The machines that the evaluations start from and end with. -/
  related : Machine → Machine → Prop
  /-- The changes of the first machine, besides those that evaluation always makes. -/
  also : Machine → Machine → Prop
  /-- The values that come out. -/
  good : Value → Prop
  /-- The expressions that can be evaluated. -/
  legalExpr : Expr → Prop
  /-- The statements that can be executed. -/
  legalStmt : Stmt → Prop
  /-- The directories that imports can be relative to. -/
  directory : Path → Prop
  /-- The stops that may come out. -/
  allows : Stop → Machine → Prop
  /-- The stops of the first evaluation after which nothing is claimed. -/
  releases : Stop → Prop
  /-- The changes by which the first evaluation shows that it hit a limit. -/
  hit : Machine → Option Stop → Machine → Prop

namespace Criteria

variable {α β : Type}

/-- The changes of the first machine. -/
def change (C : Criteria) (reach : Reach) (m after : Machine) : Prop :=
  Machine.Changed reach m after ∧ C.also m after

/-- What is claimed of two outcomes, given the machine before the first. If hits count, nothing
is claimed when the first evaluation hit a limit. -/
inductive Agree (C : Criteria) (change : Machine → Machine → Prop) (hits : Bool)
    (good : α → Prop) (m : Machine) : Outcome α → Outcome α → Prop
  /-- Both give the same value. -/
  | returned {value : α} {after after' : Machine} (hgood : good value)
      (hrel : C.related after after') (hchange : change m after) :
      Agree C change hits good m (.ok value after) (.ok value after')
  /-- Both stop for the same reason. -/
  | stopped {stop : Stop} {after after' : Machine} (hallows : C.allows stop after)
      (hrel : C.related after after') (hchange : change m after) :
      Agree C change hits good m (.error stop after) (.error stop after')
  /-- The first stopped in a way that ends the comparison. -/
  | released {stop : Stop} {after : Machine} {result : Outcome α} (h : C.releases stop) :
      Agree C change hits good m (.error stop after) result
  /-- The first hit a limit. -/
  | hit {result result' : Outcome α} (hhits : hits = true)
      (h : C.hit m result.stop? result.machine) : Agree C change hits good m result result'

/-- Two evaluations agree from all related machines. -/
def Holds (C : Criteria) (reach : Reach) (hits : Bool) (good : α → Prop) (x y : Eval α) : Prop :=
  ∀ m m', C.related m m' → C.Agree (C.change reach) hits good m (x m) (y m')

/-- A flow is good if the value it carries is. -/
def goodFlow (C : Criteria) : Flow → Prop
  | .giveBack value => C.good value
  | _ => True

/-- What can come out of a job. -/
def goodResult (C : Criteria) : {α : Type} → Job α → α → Prop
  | _, .evaluate _ => C.good
  | _, .execute _ => C.goodFlow

/-- The jobs that can be done. -/
def legal (C : Criteria) {α : Type} : Job α → Prop
  | .evaluate expr => C.legalExpr expr
  | .execute stmt => C.legalStmt stmt

/-- Two ways of doing jobs agree on a job. -/
def Does (C : Criteria) (hits : Bool) (run run' : JobRunner) {α : Type} (job : Job α) : Prop :=
  C.Holds job.reach hits (C.goodResult job) (run job) (run' job)

/-- Two ways of doing jobs agree on the evaluation of given expressions. -/
def Evaluates (C : Criteria) (run run' : JobRunner) (exprs : List Expr) : Prop :=
  ∀ expr ∈ exprs, C.Does false run run' (.evaluate expr)

/-- Two ways of doing jobs agree on the execution of given statements. -/
def Executes (C : Criteria) (run run' : JobRunner) (block : Block) : Prop :=
  ∀ stmt ∈ block, C.Does false run run' (.execute stmt)

/-- Two ways of doing jobs agree on all that is legal. -/
def Runs (C : Criteria) (run run' : JobRunner) : Prop :=
  ∀ {α : Type} (job : Job α), C.legal job → C.Does false run run' job

namespace Agree

variable {C : Criteria} {change : Machine → Machine → Prop} {hits : Bool} {good : α → Prop}
  {m : Machine} {r r' : Outcome α}

/-- An agreement without hits holds where hits count. -/
theorem loud (h : C.Agree change false good m r r') : C.Agree change hits good m r r' := by
  cases h with
  | returned hgood hrel hchange => exact .returned hgood hrel hchange
  | stopped hallows hrel hchange => exact .stopped hallows hrel hchange
  | released h => exact .released h
  | hit hhits h => exact absurd hhits (by decide)

/-- Where no limit was hit, hits need not count. -/
theorem quiet (hnot : ¬ C.hit m r.stop? r.machine) (h : C.Agree change hits good m r r') :
    C.Agree change false good m r r' := by
  cases h with
  | returned hgood hrel hchange => exact .returned hgood hrel hchange
  | stopped hallows hrel hchange => exact .stopped hallows hrel hchange
  | released h => exact .released h
  | hit _ h => exact absurd h hnot

/-- The claims on value and change can be weakened. -/
theorem mono {change' : Machine → Machine → Prop} {good' : α → Prop}
    (h : C.Agree change hits good m r r') (hchange' : ∀ after, change m after → change' m after)
    (hgood' : ∀ a, good a → good' a) : C.Agree change' hits good' m r r' := by
  cases h with
  | returned hgood hrel hchange => exact .returned (hgood' _ hgood) hrel (hchange' _ hchange)
  | stopped hallows hrel hchange => exact .stopped hallows hrel (hchange' _ hchange)
  | released h => exact .released h
  | hit hhits h => exact .hit hhits h

/-- An evaluation that starts after a change of the machine. -/
theorem after {before : Machine}
    (hhit : ∀ stop after, C.hit m stop after → C.hit before stop after)
    (hchange : ∀ after, change m after → change before after)
    (h : C.Agree change hits good m r r') : C.Agree change hits good before r r' := by
  cases h with
  | returned hgood hrel hc => exact .returned hgood hrel (hchange _ hc)
  | stopped hallows hrel hc => exact .stopped hallows hrel (hchange _ hc)
  | released h => exact .released h
  | hit hhits h => exact .hit hhits (hhit _ _ h)

end Agree

end Criteria

/-- What is claimed of an operation on the loops of two machines that a limit may refuse. -/
inductive Criteria.Limited (C : Criteria) (m m' : Machine) :
    Except LoopFault Loop.Stack → Except LoopFault Loop.Stack → Prop
  /-- No limit refuses. -/
  | passed {loops loops' : Loop.Stack}
      (hrel : C.related { m with loops } { m' with loops := loops' }) :
      Limited C m m' (.ok loops) (.ok loops')
  /-- Equal limits refuse. -/
  | refused {fault : LoopFault}
      (hrel : C.related { m with loops := m.loops.recordError }
        { m' with loops := m'.loops.recordError })
      (halso : C.also m { m with loops := m.loops.recordError }) :
      Limited C m m' (.error fault) (.error fault)
  /-- A limit refuses the first, which the comparison ends with. -/
  | hit {fault : LoopFault} {result : Except LoopFault Loop.Stack}
      (h : ∀ stop (after : Machine), after.loops.statistics.errors =
        m.loops.statistics.errors + 1 → C.hit m stop after) :
      Limited C m m' (.error fault) result

/-- Criteria that the operations on machines respect. -/
structure Comparison extends Criteria where
  also_of_errors : ∀ {m after : Machine},
    after.loops.statistics.errors = m.loops.statistics.errors → also m after
  also_trans : ∀ {a b c}, also a b → also b c → also a c
  hit_of_also : ∀ {a b}, also a b → ∀ stop after, hit b stop after → hit a stop after
  hit_of_errors : ∀ {m stop} {after undone : Machine},
    undone.loops.statistics.errors = after.loops.statistics.errors → hit m stop after →
    hit m stop undone
  /-- Faults that the program can handle are allowed. -/
  allows_fault : ∀ {fault m}, fault.isFatal = false → allows (.failed (.running fault)) m
  /-- What a sink may fail with is allowed. -/
  allows_io : ∀ {fault m}, m.output.MayFail fault ∨ m.errors.MayRefuse fault →
    allows (.failed (.io fault)) m
  /-- Of the machine, only its sinks matter for what is allowed. -/
  allows_of_sinks : ∀ {stop} {m after : Machine}, after.output = m.output →
    after.errors = m.errors → allows stop m → allows stop after
  /-- No handler takes a stop that ends the comparison. -/
  releases_fatal : ∀ {fault}, releases (.failed (.running fault)) → fault.isFatal = true
  /-- If any stop ends the comparison, an inconsistent state does. -/
  releases_badMemory : ∀ {stop detail line}, releases stop →
    releases (.failed (.running (.badMemory detail line)))
  values : ValueClass good
  /-- A lambda is good if its body is legal. -/
  lambda : ∀ {identity params body}, good (.lambda identity params body) ↔ legalExpr body
  /-- The body of a legal lambda is legal. -/
  lambdaBody : ∀ {line params body}, legalExpr (.lambda line params body) → legalExpr body
  /-- The body of a legal definition is legal. -/
  definition : ∀ {line name params returnType body},
    legalStmt (.define line name params returnType body) → ∀ stmt ∈ body, legalStmt stmt
  /-- The initial value in a legal declaration is legal. -/
  initializer : ∀ {line name typed expr}, legalStmt (.declare line name typed expr) →
    legalExpr expr
  /-- Related machines differ in their loops and limits only. -/
  view : ∀ {m m'}, related m m' →
    ∃ loops maxCalls, m' = { m with loops := loops, maxCallDepth := maxCalls }
  /-- Related machines have as many loops in progress. -/
  depth : ∀ {m m'}, related m m' → m'.loops.depth = m.loops.depth
  /-- The second machine allows a loop no fewer turns. -/
  iterations : ∀ {m m'}, related m m' →
    m.loops.limits.maxIterations ≤ m'.loops.limits.maxIterations
  /-- Variables hold good values. -/
  binding : ∀ {m m'}, related m m' → ∀ bound ∈ m.env.bindings, good bound.value
  /-- Imports are relative to a directory that they can be relative to. -/
  base : ∀ {m m'}, related m m' → directory m.baseDir
  /-- Functions have legal bodies. -/
  function : ∀ {m m' name function}, related m m' → m.functions.get? name = some function →
    ∀ stmt ∈ function.body, legalStmt stmt
  related_console : ∀ {m m'} (c), related m m' → related (m.withConsole c) (m'.withConsole c)
  related_env : ∀ {m m' env}, related m m' →
    (∀ bound ∈ env.bindings, bound ∈ m.env.bindings ∨ good bound.value) →
    related { m with env } { m' with env }
  related_register : ∀ {m m' function} (name), related m m' →
    (∀ stmt ∈ function.body, legalStmt stmt) →
    related { m with functions := m.functions.set name function }
      { m' with functions := m.functions.set name function }
  related_modules : ∀ {m m'} (modules), related m m' →
    related { m with modules } { m' with modules }
  related_directory : ∀ {m m' baseDir}, related m m' → directory baseDir →
    related { m with baseDir } { m' with baseDir }
  related_advance : ∀ {m m'} (current), related m m' →
    related { m with loops := m.loops.advance current }
      { m' with loops := m'.loops.advance current }
  related_pop : ∀ {m m'}, related m m' →
    related { m with loops := m.loops.pop } { m' with loops := m'.loops.pop }
  push : ∀ {m m' context}, related m m' → context.turns = 0 →
    toCriteria.Limited m m' (m.loops.push context) (m'.loops.push context)
  tick : ∀ {m m'}, related m m' → toCriteria.Limited m m' m.loops.tick m'.loops.tick

namespace Comparison

variable {C : Comparison}

theorem refl (reach : Reach) (m : Machine) : C.change reach m m :=
  ⟨.refl reach m, C.also_of_errors rfl⟩

theorem trans {reach : Reach} {a b c : Machine} (h : C.change reach a b)
    (h' : C.change reach b c) : C.change reach a c :=
  ⟨h.1.trans h'.1, C.also_trans h.2 h'.2⟩

/-- A variable holds a good value. -/
theorem good_of_get? {m m' : Machine} (hm : C.related m m') {name : String} {value : Value}
    (h : m.env.get? name = some value) : C.good value := by
  obtain ⟨bound, hbound, rfl⟩ := Environment.exists_of_get? h
  exact C.binding hm bound hbound

/-- What happens at the console concerns no one else. -/
theorem console {m m' : Machine} (c : Console) (hm : C.related m m')
    (houtput : c.output.toDevice = m.output.toDevice)
    (herrors : c.errors.toDevice = m.errors.toDevice) :
    C.related (m.withConsole c) (m'.withConsole c) ∧ C.change .value m (m.withConsole c) := by
  refine ⟨C.related_console c hm, ⟨?_, rfl, rfl⟩, C.also_of_errors rfl⟩
  exact ⟨rfl, rfl, rfl, rfl, rfl, rfl, rfl, houtput, herrors⟩

/-- Statements bind and write variables. -/
theorem bind {m m' : Machine} {value : Value} {env : Environment} (name : String)
    (hm : C.related m m') (hvalue : C.good value)
    (henv : env = m.env.define name value ∨ env = m.env.write name value) :
    C.related { m with env } { m' with env } ∧ C.change .stmt m { m with env } := by
  refine ⟨C.related_env hm fun bound hbound => ?_,
    ⟨?_, Environment.names_suffix henv, rfl⟩, C.also_of_errors rfl⟩
  · rcases Environment.mem_changed henv hbound with hold | hnew
    · exact .inl hold
    · rw [hnew]
      exact .inr hvalue
  · exact ⟨Environment.scopes_eq henv, rfl, rfl, rfl, rfl, rfl, rfl, rfl, rfl⟩

/-- Statements register functions. -/
theorem register {m m' : Machine} {function : Function} (name : String) (hm : C.related m m')
    (hbody : ∀ stmt ∈ function.body, C.legalStmt stmt) :
    C.related { m with functions := m.functions.set name function }
        { m' with functions := m.functions.set name function } ∧
      C.change .stmt m { m with functions := m.functions.set name function } :=
  ⟨C.related_register name hm hbody, ⟨by constructor <;> rfl, List.suffix_refl _, rfl⟩,
    C.also_of_errors rfl⟩

/-- Statements bind aliases. -/
theorem bindModule {m m' : Machine} (aliasName : String) (module : Module)
    (hm : C.related m m') :
    C.related { m with modules := m.modules.set aliasName module }
        { m' with modules := m.modules.set aliasName module } ∧
      C.change .stmt m { m with modules := m.modules.set aliasName module } :=
  ⟨C.related_modules _ hm, ⟨by constructor <;> rfl, List.suffix_refl _, rfl⟩,
    C.also_of_errors rfl⟩

/-- Turns note their value. -/
theorem advance {m m' : Machine} (current : Number) (hm : C.related m m') :
    C.related { m with loops := m.loops.advance current }
        { m' with loops := m'.loops.advance current } ∧
      C.change .turn m { m with loops := m.loops.advance current } :=
  ⟨C.related_advance current hm, Machine.changed_advance m current,
    C.also_of_errors (by rw [Loop.Stack.statistics_advance])⟩

end Comparison

/-- A comparison that holds inside the calls and module loads of another one. -/
structure Comparison.Opens (C inner : Comparison) : Prop where
  legalExpr : ∀ {expr}, C.legalExpr expr → inner.legalExpr expr
  legalStmt : ∀ {stmt}, C.legalStmt stmt → inner.legalStmt stmt
  good : ∀ {value}, inner.good value ↔ C.good value
  allows : ∀ {stop m}, inner.allows stop m → C.allows stop m
  releases : ∀ {stop}, inner.releases stop → C.releases stop
  also : ∀ {m after}, inner.also m after → C.also m after
  /-- Too many calls are refused with equal limits, or the comparison ends. -/
  recursion : ∀ {m m'} (line : Nat), C.related m m' → m.maxCallDepth ≤ m.callDepth →
    m'.maxCallDepth = m.maxCallDepth ∨
      C.hit m (some (.failed (.running (.recursion m.maxCallDepth line)))) m
  /-- A call that the first machine allows is allowed by the second. -/
  allowed : ∀ {m m'}, C.related m m' → m.callDepth < m.maxCallDepth →
    m.callDepth < m'.maxCallDepth
  /-- A call is begun. -/
  begin : ∀ {m m'}, C.related m m' → m.callDepth < m.maxCallDepth →
    inner.related { m with callDepth := m.callDepth + 1 }
      { m' with callDepth := m.callDepth + 1 }
  /-- A program that can be imported is legal. -/
  file : ∀ {m m' line target aliasName path program}, C.related m m' →
    C.legalStmt (.use line target aliasName) → Block.ofFile m.files path = .ok program →
    ∀ stmt ∈ program, inner.legalStmt stmt
  /-- The imports of a module are relative to the directory that holds it. -/
  parent : ∀ {m m' line target aliasName}, C.related m m' →
    C.legalStmt (.use line target aliasName) →
    inner.directory (Path.ofModule m.baseDir target.text).parent
  /-- A module load is begun. -/
  load : ∀ {m m' line target aliasName path program}, C.related m m' →
    C.legalStmt (.use line target aliasName) → path = Path.ofModule m.baseDir target.text →
    path.canonical ∉ m.loading → Block.ofFile m.files path = .ok program →
    inner.related { m with loading := path.canonical :: m.loading }
      { m' with loading := path.canonical :: m.loading }
  /-- A call or a module load is over. -/
  back : ∀ {m m' after after'}, C.related m m' → inner.related after after' →
    after.files = m.files → after.maxCallDepth = m.maxCallDepth →
    C.related { after with callDepth := m.callDepth, loading := m.loading }
      { after' with callDepth := m.callDepth, loading := m.loading }

end DecimalScript
