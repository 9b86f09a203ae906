import DecimalScript.Eval.Watch

/-!
# Observed runs

A watch sees the machines around a job; an observer is shown the job as well and all of
what it ended with, so also the value. A run that comes out the same with an observer as
without had no job, at any nesting, that the observer would refuse.
-/

namespace DecimalScript

/-- Whether a job is accepted, by the job, the machine before it and what it ended with. -/
abbrev Observer := {α : Type} → Job α → Machine → Outcome α → Bool

/-- An outcome that an observer accepts, or the end of the run. -/
def Observer.check (observer : Observer) {α : Type} (job : Job α) (m : Machine)
    (outcome : Outcome α) : Outcome α :=
  if observer job m outcome then outcome else .error Watch.refusal outcome.machine

/-- The observer that sees of a job what a watch sees. -/
def Observer.ofWatch (watch : Watch) : Observer := fun _ m outcome =>
  watch m outcome.stop? outcome.machine

/-- What an observer accepts stays. -/
theorem Observer.check_of_accepts {observer : Observer} {α : Type} {job : Job α} {m : Machine}
    {outcome : Outcome α} (h : observer job m outcome = true) :
    Observer.check observer job m outcome = outcome :=
  if_pos h

namespace Job

variable {α : Type}

/-- Does a job with a bound on nesting, where an observer is shown it and all jobs nested in it. -/
def performObserved (observer : Observer) : Nat → JobRunner
  | 0, _, _ => Eval.exhausted
  | depth + 1, _, job => fun m =>
    Observer.check observer job m
      (step (fun nested => performObserved observer depth nested) job m)

/-- A watched job is an observed one. -/
theorem performObserved_ofWatch (watch : Watch) (depth : Nat) (job : Job α) :
    performObserved (Observer.ofWatch watch) depth job = performWatched watch depth job := by
  induction depth generalizing α with
  | zero => rfl
  | succ depth ih =>
    have hnested : @performObserved (Observer.ofWatch watch) depth = @performWatched watch depth :=
      funext fun _ => funext fun nested => ih nested
    funext m
    show Observer.check (Observer.ofWatch watch) job m
        (step (@performObserved (Observer.ofWatch watch) depth) job m) =
      watch.check m (step (@performWatched watch depth) job m)
    rw [hnested]
    rfl

/-- The value that a job gives, if it gives one: that of an expression, or one that a function is
left with. -/
def value? : Job α → α → Option Value
  | .evaluate _, value => some value
  | .execute _, .giveBack value => some value
  | .execute _, _ => none

end Job

namespace Eval

/-- Runs a program where an observer is shown its jobs. -/
def runObserved (observer : Observer) (program : Block) : Eval Unit := fun m =>
  let depth := m.nestingBound (Stmt.sizeAll program) (Stmt.importsAny program)
  runStatements (fun job m => Watch.atOnce (Job.performObserved observer depth job m)) program m

/-- A watched run is an observed one. -/
theorem runObserved_ofWatch (watch : Watch) (program : Block) :
    runObserved (Observer.ofWatch watch) program = runWatched watch program := by
  unfold runObserved runWatched runWatchedTo
  simp only [Job.performObserved_ofWatch]
  rfl

end Eval

end DecimalScript
