import DecimalScript.Proofs.Balance
import DecimalScript.Proofs.Capacity

/-!
# Whole runs

What holds of every job, however deep its nested jobs may go, and of every program with
the bound that is computed for it: the bookkeeping is as before, limits are kept at
every job on the way, and only a sink can keep a program from being run to its end.
-/

namespace DecimalScript

namespace Balance

variable {α : Type} {strict : Prop} {budget : Option Budget}

/-- What is known of an evaluation that was balanced. -/
structure Settled (strict : Prop) (budget : Option Budget) (reach : Reach) (m : Machine)
    (r : Outcome α) : Prop where
  sound : Sound strict budget r.machine
  changed : Machine.Changed reach m r.machine
  possible : ∀ stop, r.stop? = some stop → Possible budget stop r.machine

/-- Balanced evaluations are the same evaluation. -/
theorem settled_of_agree {reach : Reach} {good : α → Prop} {m : Machine} {r r' : Outcome α}
    (h : (criteria strict budget).Agree ((criteria strict budget).change reach) false good m r
      r') : r' = r ∧ Settled strict budget reach m r := by
  cases h with
  | returned hgood hrel hchange =>
    obtain ⟨rfl, hsound⟩ := hrel
    exact ⟨rfl, hsound, hchange.1, nofun⟩
  | stopped hallows hrel hchange =>
    obtain ⟨rfl, hsound⟩ := hrel
    refine ⟨rfl, hsound, hchange.1, fun stop hstop => ?_⟩
    cases hstop
    exact hallows
  | released h => exact h.elim
  | hit hhits h => exact h.elim

/-- Every job is balanced, also one that reaches the bound on nesting. -/
theorem settled_perform {watch : Watch} (hwatch : Accepts strict watch) (depth : Nat)
    (job : Job α) {m : Machine} (hm : strict → m.WithinLimits) :
    Job.performWatched watch depth job m = Job.perform depth job m ∧
      Settled strict none job.reach m (Job.perform depth job m) := by
  have hlegal : (comparison strict none).legal job := by
    cases job with
    | evaluate expr | execute stmt => nofun
  exact settled_of_agree (perform hwatch (Nat.le_refl depth) (fun _ => rfl) hlegal nofun m m
    ⟨rfl, hm, nofun⟩)

/-- With the bound that is computed for a program, its statements do the same with any greater
one. -/
theorem executes_program {watch : Watch} (hwatch : Accepts strict watch) (program : Block)
    (m : Machine) {depth : Nat}
    (hdepth : m.nestingBound (Stmt.sizeAll program) (Stmt.importsAny program) ≤ depth) :
    (comparison strict (some (m.budget (Stmt.sizeAll program) (Stmt.importsAny program)))).Executes
      (Job.perform (m.nestingBound (Stmt.sizeAll program) (Stmt.importsAny program)))
      (Job.performWatched watch depth) program := by
  intro stmt hstmt
  refine perform hwatch hdepth ?_ ?_ ?_
  · nofun
  · rintro _ ⟨⟩
    exact m.covers_budget hstmt
  · rintro _ ⟨⟩ _
    exact m.bound_le_nestingBound _ _ (Stmt.size_le_of_mem hstmt)

/-- The budget that is computed for a program fits the machine. -/
theorem sound_budget {m : Machine} (hm : strict → m.WithinLimits) (size : Nat)
    (importing : Bool) : Sound strict (some (m.budget size importing)) m := by
  refine ⟨hm, ?_⟩
  rintro _ ⟨⟩
  exact m.fits_budget _ _

/-- Every program is balanced, and a bound that is computed for it is enough. -/
theorem settled_runProgram {watch : Watch} (hwatch : Accepts strict watch) (program : Block)
    {m : Machine} {depth : Nat} (hm : strict → m.WithinLimits)
    (hdepth : m.nestingBound (Stmt.sizeAll program) (Stmt.importsAny program) ≤ depth) :
    Eval.runWatchedTo watch depth program m = Eval.runProgram program m ∧
      Settled strict (some (m.budget (Stmt.sizeAll program) (Stmt.importsAny program))) .stmt m
        (Eval.runProgram program m) := by
  have hexecutes := Comparison.executes_atOnce (executes_program hwatch program m hdepth) id id
  exact settled_of_agree (Comparison.runStatements hexecutes (fun _ _ _ _ _ h => h.elim) m m
    ⟨rfl, sound_budget hm _ _⟩)

/-- The watch on limits accepts what is within its limits. -/
theorem accepts_limits : Accepts True Watch.limits :=
  fun _ _ _ hm hafter => decide_eq_true ⟨hm trivial, hafter trivial⟩

/-- The permissive watch needs no limits. -/
theorem accepts_permissive : Accepts False Watch.permissive :=
  fun _ _ _ _ _ => rfl

end Balance

namespace Job

variable {α : Type} (depth : Nat) (job : Job α) (m : Machine)

/-- Whatever a job ends with, it changed no more than its reach. -/
theorem changed_perform : Machine.Changed job.reach m (Outcome.machine (perform depth job m)) :=
  (Balance.settled_perform Balance.accepts_permissive depth job nofun).2.changed

/-- A job never ends with an inconsistent state. -/
theorem perform_ne_badMemory (detail : String) (line : Nat) :
    Outcome.stop? (perform depth job m) ≠ some (.failed (.running (.badMemory detail line))) := by
  intro hstop
  have hsettled := (Balance.settled_perform Balance.accepts_permissive depth job (m := m) nofun).2
  exact Bool.noConfusion (hsettled.possible _ hstop)

/-- A job that begins within the limits stays within them at every nested job and at its end. -/
theorem perform_limits {m : Machine} (h : m.WithinLimits) :
    (Outcome.machine (perform depth job m)).WithinLimits ∧
      performWatched Watch.limits depth job m = perform depth job m := by
  obtain ⟨hsame, hsettled⟩ := Balance.settled_perform Balance.accepts_limits depth job fun _ => h
  exact ⟨hsettled.sound.1 trivial, hsame⟩

end Job

namespace Eval

variable (program : Block) {m : Machine}

/-- A program within the limits stays within them at every job, and a greater bound on nesting
makes no difference. -/
theorem runProgram_limits (h : m.WithinLimits) {depth : Nat}
    (hdepth : m.nestingBound (Stmt.sizeAll program) (Stmt.importsAny program) ≤ depth) :
    runWatchedTo Watch.limits depth program m = runProgram program m :=
  (Balance.settled_runProgram Balance.accepts_limits program (fun _ => h) hdepth).1

/-- The permissive watch makes no difference. -/
theorem runWatched_permissive (m : Machine) :
    runWatched .permissive program m = runProgram program m :=
  (Balance.settled_runProgram Balance.accepts_permissive program nofun (Nat.le_refl _)).1

/-- A program changes no more than a statement does. -/
theorem changed_runProgram (m : Machine) :
    Machine.Changed .stmt m (Outcome.machine (runProgram program m)) :=
  (Balance.settled_runProgram Balance.accepts_permissive program nofun (Nat.le_refl _)).2.changed

/-- A program is run to its end, or a sink fails with what its device may fail with. -/
theorem runProgram_ok_or_io (m : Machine) :
    (∃ after, runProgram program m = .ok () after) ∨
      ∃ fault after, (m.output.MayFail fault ∨ m.errors.MayRefuse fault) ∧
        runProgram program m = .error (.failed (.io fault)) after := by
  have hsettled := (Balance.settled_runProgram Balance.accepts_permissive program (m := m) nofun
    (Nat.le_refl _)).2
  have hkept := hsettled.changed.kept
  have hpossible := hsettled.possible
  cases hrun : runProgram program m with
  | ok value after => exact .inl ⟨after, rfl⟩
  | error stop after =>
    rw [hrun] at hkept hpossible
    have hstop := hpossible stop rfl
    cases stop with
    | exhausted => cases hstop
    | failed failure =>
      cases failure with
      | lexical _ | syntactic _ | loop _ => exact hstop.elim
      | running fault =>
        have hfatal := isFatal_of_runStatements hrun
        exact absurd (hfatal.symm.trans hstop) (by decide)
      | io fault =>
        refine .inr ⟨fault, after, ?_, rfl⟩
        rw [← hkept.output, ← hkept.errors]
        exact hstop

end Eval

/-- A fresh machine holds no syntax, so the bound comes from the calls and the program alone. -/
theorem Machine.IsFresh.nestingBound_eq {m : Machine} (h : m.IsFresh) {size : Nat}
    {importing : Bool} (himporting : importing = false) :
    m.nestingBound size importing = (m.maxCallDepth + 1) * (size + 1) := by
  have himports : m.imports = false := by
    rw [Machine.imports, h.functions]
    rfl
  have hstored : m.storedSize = 0 := by
    rw [Machine.storedSize, h.functions, h.env]
    rfl
  unfold Machine.nestingBound
  rw [himporting, himports, hstored, Nat.max_zero]
  rfl

/-- For every machine, whatever evaluation or execution ends with: the open scopes, the calls and
loops in progress, the directory and the modules being loaded are what they were, and no open scope
was missing. From a machine within its limits, as a fresh one is, every nested job begins and ends
within them. And every program is run to its end unless the device of a sink refuses a text that
does not fit, or that of the output cannot be flushed. -/
theorem evaluation_preserves_bookkeeping (m : Machine) :
    (∀ (depth : Nat) {α : Type} (job : Job α),
      (Outcome.machine (Job.perform depth job m)).env.scopes = m.env.scopes ∧
      (Outcome.machine (Job.perform depth job m)).callDepth = m.callDepth ∧
      (Outcome.machine (Job.perform depth job m)).loops.contexts = m.loops.contexts ∧
      (Outcome.machine (Job.perform depth job m)).baseDir = m.baseDir ∧
      (Outcome.machine (Job.perform depth job m)).loading = m.loading ∧
      (∀ detail line, Outcome.stop? (Job.perform depth job m) ≠
        some (.failed (.running (.badMemory detail line)))) ∧
      (m.WithinLimits → (Outcome.machine (Job.perform depth job m)).WithinLimits ∧
        Job.performWatched Watch.limits depth job m = Job.perform depth job m)) ∧
    (m.IsFresh → m.WithinLimits) ∧
    ∀ program,
      (m.WithinLimits → Eval.runWatched Watch.limits program m = Eval.runProgram program m) ∧
      ((∃ after, Eval.runProgram program m = .ok () after) ∨
        ∃ fault after, (m.output.MayFail fault ∨ m.errors.MayRefuse fault) ∧
          Eval.runProgram program m = .error (.failed (.io fault)) after) := by
  refine ⟨fun depth α job => ?_, Machine.IsFresh.withinLimits, fun program => ?_⟩
  · have hchanged := Job.changed_perform depth job m
    have hkept := hchanged.kept
    have hcontexts : (Outcome.machine (Job.perform depth job m)).loops.contexts =
        m.loops.contexts := by
      cases job with
      | evaluate expr | execute stmt => exact hchanged.2.2
    exact ⟨hkept.scopes, hkept.callDepth, hcontexts, hkept.baseDir, hkept.loading,
      Job.perform_ne_badMemory depth job m, Job.perform_limits depth job⟩
  · exact ⟨fun h => Eval.runProgram_limits program h (Nat.le_refl _),
      Eval.runProgram_ok_or_io program m⟩

/-- A function that calls itself without end, called where the failure is handled. -/
theorem bookkeeping_of_recursion :
    let call : Expr := .call 1 (.var 1 "f") []
    let m : Machine := { functions := [("f", ⟨"f", [], none, [.giveBack 1 (some call)]⟩)] }
    let job : Job Flow := .execute (.attempt 1 [.evaluate call] "e" [])
    m.WithinLimits ∧ (Outcome.machine (Job.perform 900 job m)).WithinLimits ∧
      Job.performWatched Watch.limits 900 job m = Job.perform 900 job m :=
  ⟨by decide, ((evaluation_preserves_bookkeeping _).1 900 _).2.2.2.2.2.2 (by decide)⟩

/-- An expression leaves the names of all variables as they are; a statement only adds names after
those that were there. This is so whatever the outcome. -/
theorem evaluation_preserves_names (depth : Nat) (m : Machine) :
    (∀ expr, (Outcome.machine (Job.perform depth (.evaluate expr) m)).env.names = m.env.names) ∧
      ∀ stmt, m.env.names.reverse <+:
        (Outcome.machine (Job.perform depth (.execute stmt) m)).env.names.reverse := by
  constructor
  · exact fun expr => (Job.changed_perform depth (.evaluate expr) m).2.1
  · intro stmt
    rw [List.reverse_prefix]
    exact (Job.changed_perform depth (.execute stmt) m).2.1

/-- A program without imports is run to its end by a fresh machine with a bound on nesting that is
computed from the greatest number of calls and the size of the program: the bound is never reached,
a greater one makes no difference, and at every job on the way no more calls are in progress and no
loop has begun more turns than the limits allow. -/
theorem run_terminates (program : Block) {m : Machine} (hfresh : m.IsFresh)
    (himports : Stmt.importsAny program = false) {depth : Nat}
    (hdepth : (m.maxCallDepth + 1) * (Stmt.sizeAll program + 1) ≤ depth) :
    Eval.runWatchedTo Watch.limits depth program m = Eval.runProgram program m ∧
      Outcome.stop? (Eval.runProgram program m) ≠ some .exhausted := by
  constructor
  · refine Eval.runProgram_limits program hfresh.withinLimits ?_
    rw [hfresh.nestingBound_eq himports]
    exact hdepth
  · intro hstop
    rcases Eval.runProgram_ok_or_io program m with ⟨after, hrun⟩ | ⟨_, after, _, hrun⟩
    · rw [hrun] at hstop
      cases hstop
    · rw [hrun] at hstop
      cases hstop

/-- An endless loop around unbounded recursion. -/
theorem endless_loop_terminates :
    let call : Expr := .call 2 (.var 2 "f") []
    let program : Block := [.define 1 "f" [] none [.giveBack 1 (some call)],
      .repeatWhile 2 (.literal 2 (.boolean true)) [.evaluate call]]
    let m : Machine := { maxCallDepth := 2, loops := { limits := { maxIterations := 3 } } }
    Eval.runWatchedTo Watch.limits 60 program m = Eval.runProgram program m ∧
      Outcome.stop? (Eval.runProgram program m) ≠ some .exhausted :=
  run_terminates _ ⟨rfl, rfl, rfl, rfl, rfl, rfl, rfl⟩ rfl (by decide)

end DecimalScript
