import DecimalScript.Proofs.Evolution
import DecimalScript.Proofs.LoopRuns
import DecimalScript.Proofs.Observation

/-!
# Loops that pass a limit

A loop that is nested too deeply, or that would take one turn too many, is refused: it is
reported once, counted once, and ends normally. The course of a loop is read off its run,
wherever its body is run. No failure of a loop comes out of any job, so no handler can see
one.
-/

namespace DecimalScript

namespace Notice

/-- Notices as lines of the reports. -/
def texts (color : Bool) : List Notice → String
  | [] => ""
  | notice :: rest => notice.text color ++ texts color rest

theorem texts_append (color : Bool) (notices more : List Notice) :
    texts color (notices ++ more) = texts color notices ++ texts color more := by
  induction notices with
  | nil => simp [texts]
  | cons notice rest ih => simp [texts, ih, String.append_assoc]

end Notice

namespace Machine

/-- Reports are accounted for: each line that was added is a notice, and as many loops were counted
with an error as notices are about loops. -/
def Accounted (m after : Machine) : Prop :=
  ∃ notices : List Notice,
    after.errors.written = m.errors.written ++ Notice.texts m.color notices ∧
    after.loops.statistics.errors = m.loops.statistics.errors + notices.countP Notice.isLoop

namespace Accounted

/-- Nothing is reported and no loop refused. -/
theorem of_eq {m after : Machine} (herrors : after.errors = m.errors)
    (hcount : after.loops.statistics.errors = m.loops.statistics.errors) : Accounted m after := by
  refine ⟨[], ?_, hcount⟩
  rw [herrors, Notice.texts, String.append_empty]

theorem trans {a b c : Machine} (hcolor : b.color = a.color) (h : Accounted a b)
    (h' : Accounted b c) : Accounted a c := by
  obtain ⟨notices, hwritten, hcount⟩ := h
  obtain ⟨more, hwritten', hcount'⟩ := h'
  refine ⟨notices ++ more, ?_, ?_⟩
  · rw [hwritten', hwritten, hcolor, Notice.texts_append, String.append_assoc]
  · rw [hcount', hcount, List.countP_append, Nat.add_assoc]

/-- One line is added, where there is room for it. -/
theorem noting {m : Machine} (hcapacity : m.errors.capacity = none) (notice : Notice)
    {after : Machine} (herrors : after.errors = (m.noting notice).errors)
    (hcount : after.loops.statistics.errors =
      m.loops.statistics.errors + if notice.isLoop then 1 else 0) : Accounted m after := by
  refine ⟨[notice], ?_, ?_⟩
  · rw [herrors, Machine.noting, Sink.put_of_fits (Sink.fits_of_capacity hcapacity _)]
    simp [Notice.texts, Sink.append]
  · rw [hcount, List.countP_singleton]

end Accounted

/-- If everything fits into the reports, they are accounted for whatever evaluation does. -/
theorem Evolves.accounted {m after : Machine} (h : m.Evolves after)
    (hcapacity : m.errors.capacity = none) : Accounted m after := by
  induction h with
  | refl m => exact .of_eq rfl rfl
  | @effect m after h =>
    cases h with
    | console c _ herrors => exact .of_eq herrors rfl
    | reported notice hkind => exact .noting hcapacity notice rfl (by simp [hkind, Machine.noting])
    | @refused fault _ => exact .noting hcapacity (.loop fault) rfl rfl
    | define | write | register | bindModule => exact .of_eq rfl rfl
    | advance current => exact .of_eq rfl (by rw [Loop.Stack.statistics_advance])
    | tick htick => exact .of_eq rfl (Loop.Stack.tick_ok htick).2.1
  | trans h _ ih ih' =>
    obtain ⟨hcolor, hkept⟩ := h.reports
    have hroom := (congrArg Device.capacity hkept).trans hcapacity
    exact .trans hcolor (ih hcapacity) (ih' hroom)
  | loop hpush _ ih =>
    obtain ⟨notices, hwritten, hcount⟩ := ih hcapacity
    exact ⟨notices, hwritten, hcount.trans (by rw [(Loop.Stack.push_ok hpush).2.1])⟩
  | scope _ _ _ _ _ ih | directory _ _ ih | loading _ _ _ ih | rollback _ ih
  | recover _ _ _ ih => exact ih hcapacity

end Machine

namespace Eval

/-- A turn of a loop that has taken so many before: it is entered, counted and executed, which ends
with an outcome. -/
def TakesTurn {σ : Type} (enter : σ → Eval Bool) (body : Eval Flow)
    (limit taken : Nat) (cursor : σ) (m : Machine) (outcome : Outcome Flow) : Prop :=
  ∃ entered loops, enter cursor m = .ok true entered ∧ taken < limit ∧
    entered.loops.tick = .ok loops ∧
    outcome = body { entered with loops }

/-- How a loop in a line goes on when it has taken some turns, from a cursor and a machine to what
it ends with. -/
inductive Course {σ : Type} (enter : σ → Eval Bool) (next : σ → Option σ) (body : Eval Flow)
    (limit line : Nat) : Nat → σ → Machine → Outcome Flow → Prop
  /-- There is no further turn. -/
  | over {taken : Nat} {cursor : σ} {m after : Machine} (h : enter cursor m = .ok false after) :
      Course enter next body limit line taken cursor m (.ok .normal after)
  /-- Whether there is one cannot be told. -/
  | broken {taken : Nat} {cursor : σ} {m after : Machine} {stop : Stop}
      (h : enter cursor m = .error stop after) :
      Course enter next body limit line taken cursor m (.error stop after)
  /-- There is one, but the loop has taken as many turns as it may. It is reported with its line and
  ends normally. -/
  | refused {cursor : σ} {m after : Machine} (h : enter cursor m = .ok true after) :
      Course enter next body limit line limit cursor m
        (.ok .normal (after.refusing (.iterationLimit limit line)))
  /-- A turn stops. -/
  | stopped {taken : Nat} {cursor : σ} {m after : Machine} {stop : Stop}
      (h : TakesTurn enter body limit taken cursor m (.error stop after)) :
      Course enter next body limit line taken cursor m (.error stop after)
  /-- A turn leaves the loop. -/
  | left {taken : Nat} {cursor : σ} {m after : Machine}
      (h : TakesTurn enter body limit taken cursor m (.ok .leave after)) :
      Course enter next body limit line taken cursor m (.ok .normal after)
  /-- A turn leaves the function around the loop. -/
  | gaveBack {taken : Nat} {cursor : σ} {m after : Machine} {value : Value}
      (h : TakesTurn enter body limit taken cursor m (.ok (.giveBack value) after)) :
      Course enter next body limit line taken cursor m (.ok (.giveBack value) after)
  /-- A turn ends and was the last one. -/
  | last {taken : Nat} {cursor : σ} {m after : Machine} {flow : Flow}
      (h : TakesTurn enter body limit taken cursor m (.ok flow after))
      (hflow : flow = .normal ∨ flow = .next) (hnext : next cursor = none) :
      Course enter next body limit line taken cursor m (.ok .normal after)
  /-- A turn ends and the loop goes on. -/
  | turn {taken : Nat} {cursor following : σ} {m after : Machine} {flow : Flow}
      {outcome : Outcome Flow} (h : TakesTurn enter body limit taken cursor m (.ok flow after))
      (hflow : flow = .normal ∨ flow = .next) (hnext : next cursor = some following)
      (hrest : Course enter next body limit line (taken + 1) following after outcome) :
      Course enter next body limit line taken cursor m outcome

/-- What a loop in a line does. Nested too deeply it is reported with its line and ends normally,
and nothing else happens. Otherwise its turns take their course inside its context. Either way the
loops around it are as before. -/
structure Contained {σ : Type} (enter : σ → Eval Bool) (next : σ → Option σ)
    (body : Eval Flow) (line : Nat) (first : σ) (m : Machine) (outcome : Outcome Flow) : Prop where
  deep : m.loops.limits.maxDepth ≤ m.loops.depth →
    outcome = .ok .normal (m.refusing (.depthExceeded m.loops.limits.maxDepth line))
  course : m.loops.depth < m.loops.limits.maxDepth →
    ∃ context entered inside, context.line = line ∧ m.loops.push context = .ok entered ∧
      Course enter next body m.loops.limits.maxIterations line 0 first
        { m with loops := entered } inside ∧
      outcome = Outcome.mapMachine (fun after => { after with loops := after.loops.pop }) inside
  contexts : (Outcome.machine outcome).loops.contexts = m.loops.contexts

/-- In reports without a limit, a refusal is reported and the evaluation goes on. -/
theorem refuse_of_capacity {α : Type} {m : Machine} (h : m.errors.capacity = none)
    (fault : LoopFault) (result : α) : refuse fault result m = .ok result (m.refusing fault) := by
  rw [refuse_eq]
  exact if_pos (Sink.fits_of_capacity h _)

section

variable {σ : Type} {run : JobRunner} {enter : σ → Eval Bool} {next : σ → Option σ}
  {body : Block}

/-- A turn that is run is taken. -/
theorem RunsIn.takesTurn {body : Eval Flow} {limit taken : Nat} {cursor : σ} {m inside : Machine}
    {outcome : Outcome Flow} (h : RunsIn enter limit taken cursor m inside)
    (hends : body inside = outcome) : TakesTurn enter body limit taken cursor m outcome := by
  obtain ⟨hroom, entered, loops, hentered, htick, rfl⟩ := h
  exact ⟨entered, loops, hentered, hroom, htick, hends.symm⟩

variable (henter : ∀ cursor m, Machine.Changed .turn m (Outcome.machine (enter cursor m)))
  (hbody : ∀ m, Machine.Changed .stmt m (Outcome.machine (executeBlock run body m)))

include henter hbody

/-- A run of a loop is its course, where everything fits into the reports. -/
theorem course_of_loopRuns {limit line taken : Nat} {cursor : σ} {m : Machine}
    {inside : List Machine} {outcome : Outcome Flow}
    (h : LoopRuns enter next (executeBlock run body) limit line taken cursor m inside outcome)
    (hcapacity : m.errors.capacity = none) :
    Course enter next (executeBlock run body) limit line taken cursor m outcome := by
  have hentered {cursor : σ} {m entered : Machine} {more : Bool}
      (h : enter cursor m = .ok more entered) : entered.errors.capacity = m.errors.capacity := by
    have hchanged := henter cursor m
    rw [h, Outcome.machine_ok] at hchanged
    exact congrArg Device.capacity hchanged.kept.errors
  have hended {flow : Flow} {inside after : Machine}
      (h : executeBlock run body inside = .ok flow after) :
      after.errors.capacity = inside.errors.capacity := by
    have hchanged := hbody inside
    rw [h, Outcome.machine_ok] at hchanged
    exact congrArg Device.capacity hchanged.kept.errors
  induction h with
  | finished h => exact .over h
  | broken h => exact .broken h
  | refused h =>
    rw [refuse_of_capacity ((hentered h).trans hcapacity)]
    exact .refused h
  | stopped hruns hends => exact .stopped (hruns.takesTurn hends)
  | left hruns hends => exact .left (hruns.takesTurn hends)
  | gaveBack hruns hends => exact .gaveBack (hruns.takesTurn hends)
  | last hruns hends hnext =>
    obtain ⟨flow, hflow, hblock⟩ := hends.exists_flow
    exact .last (hruns.takesTurn hblock) hflow hnext
  | turn hruns hends hnext _ ih =>
    obtain ⟨flow, hflow, hblock⟩ := hends.exists_flow
    obtain ⟨-, entered, loops, henters, -, rfl⟩ := id hruns
    exact .turn (hruns.takesTurn hblock) hflow hnext
      (ih ((hended hblock).trans ((hentered henters).trans hcapacity)))

/-- A loop is refused or takes its course in its context. -/
theorem contained_executeLoop {context : Loop.Context} {first : σ} {m : Machine}
    (hcapacity : m.errors.capacity = none) (hturns : context.turns = 0)
    (hcontexts : (Outcome.machine (executeLoop run context enter next body first m)).loops.contexts =
      m.loops.contexts) :
    Contained enter next (executeBlock run body) context.line first m
      (executeLoop run context enter next body first m) := by
  refine ⟨fun hfull => ?_, fun hroom => ?_, hcontexts⟩
  · rw [executeLoop_of_refusal (Loop.Stack.push_of_full hfull)]
    exact refuse_of_capacity hcapacity _ _
  · obtain ⟨entered, inside, ran, hpush, hruns, hran⟩ :=
      loopRuns_executeLoop henter hbody hturns hroom
    have hcourse := course_of_loopRuns henter hbody hruns hcapacity
    exact ⟨context, entered, ran, rfl, hpush, hcourse, hran⟩

end

end Eval

/-- What is known of two balanced evaluations is known of the first. -/
theorem Balance.changed_of_holds {α : Type} {reach : Reach} {hits : Bool} {good : α → Prop}
    {x y : Eval α} (h : (comparison False none).Holds reach hits good x y) (m : Machine) :
    Machine.Changed reach m (Outcome.machine (x m)) :=
  (settled_of_agree ((h m m ⟨rfl, nofun, nofun⟩).quiet id)).2.changed

namespace Eval

/-- Entering a turn of a range changes only what a turn may change. -/
theorem changed_enterRange (name : String) (stop step current : Number) (m : Machine) :
    Machine.Changed .turn m (Outcome.machine (enterRange name stop step current m)) := by
  have henter : (Balance.comparison False none).Holds .turn false (fun _ => True)
      (enterRange name stop step current) (enterRange name stop step current) :=
    Comparison.enterRange name stop step current
  exact Balance.changed_of_holds henter m

/-- Entering a turn over an item changes only what a turn may change. -/
theorem changed_enterItems (name : String) (cursor : Nat × List Value) (m : Machine) :
    Machine.Changed .turn m (Outcome.machine (enterItems name cursor m)) := by
  have hgood : ∀ value ∈ cursor.2, (Balance.comparison False none).good value := fun _ _ => nofun
  have henter : (Balance.comparison False none).Holds .turn false (fun _ => True)
      (enterItems name cursor) (enterItems name cursor) := Comparison.enterItems name hgood
  exact Balance.changed_of_holds henter m

section

variable (depth : Nat) {m : Machine} (hcapacity : m.errors.capacity = none)

/-- Nested jobs are balanced. -/
theorem does_perform {α : Type} (job : Job α) :
    (Balance.comparison False none).Does false (fun nested => Job.perform depth nested)
      (fun nested => Job.performWatched .permissive depth nested) job := by
  refine Balance.perform Balance.accepts_permissive (Nat.le_refl depth) (fun _ => rfl) ?_ nofun
  cases job with
  | evaluate expr | execute stmt => nofun

/-- Nested blocks are balanced. -/
theorem executes_perform (block : Block) :
    (Balance.comparison False none).Executes (fun job => Job.perform depth job)
      (fun job => Job.performWatched .permissive depth job) block :=
  fun stmt _ => does_perform depth (.execute stmt)

include hcapacity

theorem contained_executeWhile (condition : Expr) (body : Block) (line : Nat) :
    let run : JobRunner := fun job => Job.perform depth job
    Contained (fun _ => do return (← run (.evaluate condition)).holds) some
      (executeBlock run body) line () m (executeWhile run condition body line m) := by
  intro run
  let run' : JobRunner := fun job => Job.performWatched .permissive depth job
  have hcondition := does_perform depth (.evaluate condition)
  have henter : (Balance.comparison False none).Holds .turn false (fun _ => True)
      (do return (← run (.evaluate condition)).holds)
      (do return (← run' (.evaluate condition)).holds) :=
    .bind (.turn (.stmt hcondition)) fun _ _ => .pure trivial
  have hloop := Comparison.executeWhile (List.forall_mem_singleton.mpr hcondition)
    (executes_perform depth body) line
  exact contained_executeLoop (fun _ => Balance.changed_of_holds henter)
    (changed_executeBlock depth body) hcapacity rfl (Balance.changed_of_holds hloop m).2.2

theorem contained_executeRange (name : String) (start stop : Number) {step : Number}
    (hstep : step.isZero = false) (body : Block) (line : Nat) :
    let run : JobRunner := fun job => Job.perform depth job
    Contained (enterRange name stop step) (·.add? step) (executeBlock run body) line start m
      (executeRange run name start stop step body line m) := by
  intro run
  have hloop := Balance.changed_of_holds
    (Comparison.executeRange name start stop step (executes_perform depth body) line) m
  rw [executeRange_eq, hstep] at hloop ⊢
  exact contained_executeLoop (changed_enterRange name stop step)
    (changed_executeBlock depth body) hcapacity rfl hloop.2.2

theorem contained_executeItems (name : String) (items : List Value) (body : Block) (line : Nat) :
    let run : JobRunner := fun job => Job.perform depth job
    Contained (enterItems name) (fun (position, items) => some (position + 1, items.tail))
      (executeBlock run body) line (0, items) m (executeItems run name items body line m) := by
  intro run
  have hgood : ∀ value ∈ items, (Balance.comparison False none).good value := fun _ _ => nofun
  have hloop := Comparison.executeItems name hgood (executes_perform depth body) line
  exact contained_executeLoop (changed_enterItems name) (changed_executeBlock depth body) hcapacity
    rfl (Balance.changed_of_holds hloop m).2.2

end

/-- After a statement that ends normally the next one follows. -/
theorem executeBlock_of_normal {run : JobRunner} {stmt : Stmt} {m after : Machine}
    (h : run (.execute stmt) m = .ok .normal after) (rest : Block) :
    executeBlock run (stmt :: rest) m = executeBlock run rest after := by
  rw [executeBlock]
  exact bind_of_ok h

/-- A handler is not begun unless the body of its block failed with a fault of evaluation. -/
theorem executeTry_fault_or_rollback (run : JobRunner) (body handler : Block) (failure : String)
    (m : Machine) :
    (∃ fault after, executeBlock run body m = .error (.failed (.running fault)) after) ∨
      executeTry run body failure handler m =
        Outcome.mapMachine (·.rollback m.env.mark) (executeBlock run body m) :=
  (Outcome.fault_or_none (executeBlock run body m)).imp_right executeTry_of_no_fault

end Eval

/-- The observer that refuses a job that ends with the failure of a loop. -/
def Observer.contained : Observer := fun _ _ outcome =>
  match outcome with
  | .error (.failed (.loop _)) _ => false
  | _ => true

/-- What evaluation can end with is not the failure of a loop. -/
theorem Observation.accepts_contained : Observation.Accepts (fun _ => True) Observer.contained := by
  intro α job m outcome _ hsettled
  have hpossible := hsettled.possible
  cases outcome with
  | ok result after => rfl
  | error stop after =>
    have hstop := hpossible stop rfl
    cases stop with
    | exhausted => rfl
    | failed failure =>
      cases failure with
      | loop fault => exact hstop.elim
      | io _ | lexical _ | syntactic _ | running _ => rfl

/-- No job ends with the failure of a loop, and nor does one nested in it. -/
theorem Job.perform_contained {α : Type} (depth : Nat) (job : Job α) (m : Machine) :
    performObserved Observer.contained depth job m = perform depth job m ∧
      ∀ fault, Outcome.stop? (perform depth job m) ≠ some (.failed (.loop fault)) := by
  obtain ⟨hsame, hsettled⟩ := Observation.settled_perform ValueClass.univ (fun _ _ _ => trivial)
    Observation.accepts_contained depth job (m := m) (fun _ _ => trivial)
  exact ⟨hsame, fun fault hstop => hsettled.possible _ hstop⟩

/-- No program ends with the failure of a loop, and nor does a job nested in it. -/
theorem Eval.runProgram_contained (program : Block) (m : Machine) :
    runObserved Observer.contained program m = runProgram program m ∧
      ∀ fault, Outcome.stop? (runProgram program m) ≠ some (.failed (.loop fault)) := by
  obtain ⟨hsame, hsettled⟩ := Observation.settled_runProgram ValueClass.univ
    (fun _ _ _ => trivial) Observation.accepts_contained program (m := m) (fun _ _ => trivial)
  exact ⟨hsame, fun fault hstop => hsettled.possible _ hstop⟩

/-- Failures of loops are contained, where everything fits into the reports. No job and no program
ends with one, and no job nested in them does. The reports of a job or program are accounted for:
each line is one notice, and each refused loop is one line and one count. A loop of any kind is
refused with its own line, ends normally, and leaves the loops around it as they were; so the
statements after it follow, and no handler is begun. -/
theorem loop_failures_contained {m : Machine} (hcapacity : m.errors.capacity = none) :
    (∀ (depth : Nat) {α : Type} (job : Job α),
      Job.performObserved Observer.contained depth job m = Job.perform depth job m ∧
      (∀ fault, Outcome.stop? (Job.perform depth job m) ≠ some (.failed (.loop fault))) ∧
      m.Accounted (Outcome.machine (Job.perform depth job m))) ∧
    (∀ program,
      Eval.runObserved Observer.contained program m = Eval.runProgram program m ∧
      (∀ fault, Outcome.stop? (Eval.runProgram program m) ≠ some (.failed (.loop fault))) ∧
      m.Accounted (Outcome.machine (Eval.runProgram program m))) ∧
    ∀ depth : Nat,
      let run : JobRunner := fun job => Job.perform depth job
      (∀ condition body line,
        Eval.Contained (fun _ => do return (← run (.evaluate condition)).holds) some
          (Eval.executeBlock run body) line () m (Eval.executeWhile run condition body line m)) ∧
      (∀ name start stop step body line, step.isZero = false →
        Eval.Contained (Eval.enterRange name stop step) (·.add? step)
          (Eval.executeBlock run body) line start m
          (Eval.executeRange run name start stop step body line m)) ∧
      (∀ name items body line,
        Eval.Contained (Eval.enterItems name)
          (fun (position, items) => some (position + 1, items.tail))
          (Eval.executeBlock run body) line (0, items) m
          (Eval.executeItems run name items body line m)) ∧
      (∀ stmt rest after, run (.execute stmt) m = .ok .normal after →
        Eval.executeBlock run (stmt :: rest) m = Eval.executeBlock run rest after) ∧
      ∀ body failure handler,
        (∃ fault after,
          Eval.executeBlock run body m = .error (.failed (.running fault)) after) ∨
        Eval.executeTry run body failure handler m =
          Outcome.mapMachine (·.rollback m.env.mark) (Eval.executeBlock run body m) := by
  refine ⟨fun depth α job => ?_, fun program => ?_, fun depth => ⟨?_, ?_, ?_, ?_, ?_⟩⟩
  · obtain ⟨hsame, hstop⟩ := Job.perform_contained depth job m
    exact ⟨hsame, hstop, (Job.moves_perform depth job m).accounted hcapacity⟩
  · obtain ⟨hsame, hstop⟩ := Eval.runProgram_contained program m
    exact ⟨hsame, hstop, (Eval.moves_runProgram program m).accounted hcapacity⟩
  · exact Eval.contained_executeWhile depth hcapacity
  · intro name start stop step body line hstep
    exact Eval.contained_executeRange depth hcapacity name start stop hstep body line
  · exact Eval.contained_executeItems depth hcapacity
  · intro stmt rest after hstmt
    exact Eval.executeBlock_of_normal hstmt rest
  · intro body failure handler
    exact Eval.executeTry_fault_or_rollback _ body handler failure m

/-- An endless loop inside a guarded block, and a statement after it. -/
theorem loop_failures_contained_of_endless_loop :
    let endless : Stmt := .repeatWhile 2 (.literal 2 (.boolean true)) []
    let program : Block := [.attempt 1 [endless, .print 3 [.literal 3 (.number .one)]] "e" []]
    let m : Machine := { loops := { limits := { maxIterations := 2 } }, color := false }
    let after := Outcome.machine (Eval.runProgram program m)
    m.errors.capacity = none ∧ m.Accounted after ∧ after.loops.statistics.errors = 1 ∧
      after.errors.written = "Line 2: Loop exceeded the maximum of 2 iterations\n" ∧
      after.output.written = "1\n" := by
  intro endless program m after
  have hcapacity : m.errors.capacity = none := rfl
  refine ⟨hcapacity, ((loop_failures_contained hcapacity).2.1 program).2.2, ?_⟩
  decide +kernel

end DecimalScript
