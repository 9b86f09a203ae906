import DecimalScript.Eval.Observe
import DecimalScript.Proofs.Runs

/-!
# Values under observation

A class of values that all lambdas are in, and that no operation on values leaves, is not
left by evaluation: if the variables hold values of the class, every job at every nesting
ends with such variables, and what it gives is in the class. So no observer that accepts
all this has a job to refuse.
-/

namespace DecimalScript

/-- Observed and unobserved jobs agree if the observer has nothing to refuse at the end of a job, by
induction on the bound on nesting. -/
theorem Comparison.performObserved {C : Comparison} (hopens : C.Opens C) {observer : Observer}
    (hexhausted : ∀ m, C.allows .exhausted m)
    (hparts : ∀ {stmt}, C.legalStmt stmt →
      (∀ expr ∈ stmt.exprs, C.legalExpr expr) ∧ ∀ part ∈ stmt.stmts, C.legalStmt part)
    (hoperands : ∀ {expr}, C.legalExpr expr → ∀ part ∈ expr.parts, C.legalExpr part)
    (hcheck : ∀ {α : Type} {job : Job α} {m m' : Machine} {r r' : Outcome α}, C.legal job →
      C.related m m' → C.Agree (C.change job.reach) true (C.goodResult job) m r r' →
      C.Agree (C.change job.reach) false (C.goodResult job) m r (Observer.check observer job m' r'))
    (depth : Nat) {α : Type} {job : Job α} (hlegal : C.legal job) :
    C.Does false (Job.perform depth) (Job.performObserved observer depth) job := by
  induction depth generalizing α with
  | zero => exact fun m m' hm => .stopped (hexhausted m) hm (C.refl _ _)
  | succ depth ih =>
    intro m m' hm
    have hinside : (∀ expr ∈ job.exprs, C.legalExpr expr) ∧ ∀ stmt ∈ job.stmts, C.legalStmt stmt := by
      cases job with
      | evaluate expr => exact ⟨hoperands hlegal, List.forall_mem_nil _⟩
      | execute stmt => exact hparts hlegal
    have hstep := Comparison.step hopens (fun nested hnested => ih hnested) hlegal
      (fun expr hexpr => ih (show C.legal (.evaluate expr) from hinside.1 expr hexpr))
      (fun stmt hstmt => ih (show C.legal (.execute stmt) from hinside.2 stmt hstmt))
    exact hcheck hlegal hm (hstep m m' hm)

/-- The variables of a machine hold values of a class. -/
def Machine.HoldsOnly (good : Value → Prop) (m : Machine) : Prop :=
  ∀ bound ∈ m.env.bindings, good bound.value

/-- A machine that has run nothing has no variables. -/
theorem Machine.IsFresh.holdsOnly {m : Machine} (h : m.IsFresh) (good : Value → Prop) :
    m.HoldsOnly good := by
  intro bound hbound
  rw [h.env] at hbound
  cases hbound

namespace Observation

/-- The criteria by which evaluation stays in a class of values. -/
def criteria (good : Value → Prop) : Criteria where
  related m m' := m' = m ∧ m.HoldsOnly good
  also _ _ := True
  good := good
  legalExpr _ := True
  legalStmt _ := True
  directory _ := True
  allows := Balance.Possible none
  releases _ := False
  hit _ _ _ := False

section

variable {good : Value → Prop} (law : ValueClass good)
  (hlambda : ∀ identity params body, good (.lambda identity params body))

/-- The operations on machines keep variables in a class of values. -/
def comparison : Comparison where
  toCriteria := criteria good
  also_of_errors := fun _ => trivial
  also_trans := fun _ _ => trivial
  hit_of_also := fun _ _ _ => id
  hit_of_errors := fun _ => id
  allows_fault := (Balance.comparison False none).allows_fault
  allows_io := (Balance.comparison False none).allows_io
  allows_of_sinks := (Balance.comparison False none).allows_of_sinks
  releases_fatal := (Balance.comparison False none).releases_fatal
  releases_badMemory := id
  values := law
  lambda := ⟨fun _ => trivial, fun _ => hlambda _ _ _⟩
  lambdaBody := id
  definition := fun _ _ _ => trivial
  initializer := fun _ => trivial
  view := by
    rintro m m' ⟨rfl, _⟩
    exact ⟨m'.loops, m'.maxCallDepth, rfl⟩
  depth := by
    rintro m m' ⟨rfl, _⟩
    rfl
  iterations := by
    rintro m m' ⟨rfl, _⟩
    exact Nat.le_refl _
  binding := fun h => h.2
  function := fun _ _ _ _ => trivial
  related_console := by
    rintro m m' c ⟨rfl, h⟩
    exact ⟨rfl, h⟩
  related_env := by
    rintro m m' env ⟨rfl, h⟩ henv
    refine ⟨rfl, fun bound hbound => ?_⟩
    rcases henv bound hbound with hold | hgood
    · exact h bound hold
    · exact hgood
  related_register := by
    rintro m m' function name ⟨rfl, h⟩ _
    exact ⟨rfl, h⟩
  related_modules := by
    rintro m m' modules ⟨rfl, h⟩
    exact ⟨rfl, h⟩
  base := fun _ => trivial
  related_directory := by
    rintro m m' baseDir ⟨rfl, h⟩ _
    exact ⟨rfl, h⟩
  related_advance := by
    rintro m m' current ⟨rfl, h⟩
    exact ⟨rfl, h⟩
  related_pop := by
    rintro m m' ⟨rfl, h⟩
    exact ⟨rfl, h⟩
  push := by
    rintro m m' context ⟨rfl, h⟩ _
    cases m'.loops.push context with
    | ok loops => exact .passed ⟨rfl, h⟩
    | error fault => exact .refused ⟨rfl, h⟩ trivial
  tick := by
    rintro m m' ⟨rfl, h⟩
    cases m'.loops.tick with
    | ok loops => exact .passed ⟨rfl, h⟩
    | error fault => exact .refused ⟨rfl, h⟩ trivial

/-- Inside calls and module loads the same holds. -/
theorem opens : (comparison law hlambda).Opens (comparison law hlambda) where
  legalExpr := id
  legalStmt := id
  good := Iff.rfl
  allows := id
  releases := id
  also := id
  recursion := by
    rintro m m' line ⟨rfl, _⟩ _
    exact .inl rfl
  allowed := by
    rintro m m' ⟨rfl, _⟩ h
    exact h
  begin := by
    rintro m m' ⟨rfl, h⟩ _
    exact ⟨rfl, h⟩
  file := fun _ _ _ _ _ => trivial
  parent := fun _ _ => trivial
  load := by
    rintro m m' line target aliasName path program ⟨rfl, h⟩ _ _ _ _
    exact ⟨rfl, h⟩
  back := by
    rintro m m' after after' ⟨rfl, _⟩ ⟨rfl, h⟩ _ _
    exact ⟨rfl, h⟩

end

variable {α : Type} {good : Value → Prop}

/-- What is known of an outcome, given what is known of the values it may give. -/
structure Settled (good : Value → Prop) (result : α → Prop) (outcome : Outcome α) : Prop where
  machine : outcome.machine.HoldsOnly good
  returned : ∀ value after, outcome = .ok value after → result value
  possible : ∀ stop, outcome.stop? = some stop → Balance.Possible none stop outcome.machine

/-- Evaluations that agree are one evaluation, which stays in the class. -/
theorem settled_of_agree {reach : Reach} {result : α → Prop} {m : Machine} {r r' : Outcome α}
    (h : (criteria good).Agree ((criteria good).change reach) false result m r r') :
    r' = r ∧ Settled good result r := by
  cases h with
  | returned hgood hrel hchange =>
    obtain ⟨rfl, hholds⟩ := hrel
    refine ⟨rfl, hholds, fun value after hvalue => ?_, nofun⟩
    cases hvalue
    exact hgood
  | stopped hallows hrel hchange =>
    obtain ⟨rfl, hholds⟩ := hrel
    refine ⟨rfl, hholds, fun value after hvalue => ?_, fun stop hstop => ?_⟩
    · cases congrArg Outcome.stop? hvalue
    · cases hstop
      exact hallows
  | released h => exact h.elim
  | hit hhits h => exact h.elim

/-- An observer that refuses nothing that stays in a class of values. -/
def Accepts (good : Value → Prop) (observer : Observer) : Prop :=
  ∀ (α : Type) (job : Job α) (m : Machine) (outcome : Outcome α), m.HoldsOnly good →
    Settled good ((criteria good).goodResult job) outcome → observer job m outcome = true

/-- An observer that accepts what stays in the class has nothing to refuse. -/
theorem check {observer : Observer} (hobserver : Accepts good observer) {job : Job α}
    {reach : Reach} {m : Machine} (hm : m.HoldsOnly good) {r r' : Outcome α}
    (h : (criteria good).Agree ((criteria good).change reach) true
      ((criteria good).goodResult job) m r r') :
    (criteria good).Agree ((criteria good).change reach) false ((criteria good).goodResult job) m r
      (Observer.check observer job m r') := by
  have hquiet := h.quiet id
  obtain ⟨rfl, hsettled⟩ := settled_of_agree hquiet
  rw [Observer.check_of_accepts (hobserver α job m r' hm hsettled)]
  exact hquiet

/-- The observer that refuses nothing. -/
theorem accepts_all (good : Value → Prop) : Accepts good fun _ _ _ => true :=
  fun _ _ _ _ _ _ => rfl

section

variable (law : ValueClass good)
  (hlambda : ∀ identity params body, good (.lambda identity params body))

include law hlambda

/-- Observed and unobserved jobs agree, where the observer accepts what stays in the class. -/
theorem perform {observer : Observer} (hobserver : Accepts good observer) (depth : Nat)
    (job : Job α) :
    (criteria good).Does false (Job.perform depth) (Job.performObserved observer depth) job := by
  refine Comparison.performObserved (opens law hlambda) (fun _ => rfl)
    (fun _ => ⟨fun _ _ => trivial, fun _ _ => trivial⟩) (fun _ _ _ => trivial) ?_ depth ?_
  · rintro β inside m m' r r' _ ⟨rfl, hm⟩ h
    exact check hobserver hm h
  · cases job with
    | evaluate expr | execute stmt => trivial

/-- An observed job ends as it does unobserved, and stays in the class. -/
theorem settled_perform {observer : Observer} (hobserver : Accepts good observer) (depth : Nat)
    (job : Job α) {m : Machine} (hm : m.HoldsOnly good) :
    Job.performObserved observer depth job m = Job.perform depth job m ∧
      Settled good ((criteria good).goodResult job) (Job.perform depth job m) :=
  settled_of_agree (perform law hlambda hobserver depth job m m ⟨rfl, hm⟩)

/-- An observed program ends as it does unobserved, and stays in the class. -/
theorem settled_runProgram {observer : Observer} (hobserver : Accepts good observer)
    (program : Block) {m : Machine} (hm : m.HoldsOnly good) :
    Eval.runObserved observer program m = Eval.runProgram program m ∧
      Settled good (fun _ => True) (Eval.runProgram program m) := by
  have hstatements : (comparison law hlambda).Executes
      (Job.perform (m.nestingBound (Stmt.sizeAll program) (Stmt.importsAny program)))
      (Job.performObserved observer
        (m.nestingBound (Stmt.sizeAll program) (Stmt.importsAny program))) program :=
    fun stmt _ => perform law hlambda hobserver _ (.execute stmt)
  have honce := Comparison.executes_atOnce hstatements id id
  exact settled_of_agree (Comparison.runStatements honce (fun _ _ _ _ _ h => h.elim) m m ⟨rfl, hm⟩)

/-- A block stays in the class. -/
theorem settled_runBlock (block : Block) {m : Machine} (hm : m.HoldsOnly good) :
    Settled good (criteria good).goodFlow (Eval.runBlock block m) := by
  have hblock : (comparison law hlambda).Executes
      (Job.perform (m.nestingBound (Stmt.sizeAll block) (Stmt.importsAny block)))
      (Job.performObserved (fun _ _ _ => true)
        (m.nestingBound (Stmt.sizeAll block) (Stmt.importsAny block))) block :=
    fun stmt _ => perform law hlambda (accepts_all good) _ (.execute stmt)
  exact (settled_of_agree (Comparison.executeBlock hblock m m ⟨rfl, hm⟩)).2

/-- The value of an expression is in the class. -/
theorem settled_runExpr (expr : Expr) {m : Machine} (hm : m.HoldsOnly good) :
    Settled good good (Eval.runExpr expr m) := by
  exact (settled_perform law hlambda (accepts_all good) _ (.evaluate expr) hm).2

/-- What a library function gives is in the class. -/
theorem settled_runLibrary {library : Library} {name : String} {arguments : List Expr}
    {line : Nat} {called : Eval Value}
    (h : Eval.runLibrary? library name arguments line = some called) {m : Machine}
    (hm : m.HoldsOnly good) : Settled good good (called m) := by
  obtain ⟨builtin, hbuiltin, rfl⟩ := Option.map_eq_some_iff.mp h
  have harguments : (comparison law hlambda).Evaluates
      (Job.perform (m.nestingBound (Expr.sizeAll arguments) false))
      (Job.performObserved (fun _ _ _ => true)
        (m.nestingBound (Expr.sizeAll arguments) false)) arguments :=
    fun expr _ => perform law hlambda (accepts_all good) _ (.evaluate expr)
  have hcall := Comparison.callBuiltin
    (Library.tame_of_builtin? (comparison law hlambda).consoleLaw hbuiltin) harguments
    (library.qualify name) line m m ⟨rfl, hm⟩
  exact (settled_of_agree (hcall.quiet id)).2

end

end Observation

end DecimalScript
