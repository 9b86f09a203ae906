import DecimalScript.Eval.Perform

/-!
# Watched runs

A watch is shown every job when it has ended: the machine before it, why it stopped if it
did, and the machine after it. When the watch refuses a job, the run ends in a fault that
no handler takes, and no flush comes after it that could fail and hide it. So a run that
comes out the same with a watch as without had no job to refuse, whether or not the
program handled what happened there.
-/

namespace DecimalScript

/-- What an evaluation ends with. -/
abbrev Outcome (α : Type) := EStateM.Result Stop Machine α

namespace Outcome

variable {α : Type}

/-- The machine after an evaluation. -/
def machine : Outcome α → Machine
  | .ok _ m => m
  | .error _ m => m

/-- Why an evaluation stopped, if it did. -/
def stop? : Outcome α → Option Stop
  | .ok _ _ => none
  | .error stop _ => some stop

@[simp] theorem machine_ok (a : α) (m : Machine) : machine (.ok a m) = m := rfl

@[simp] theorem machine_error (stop : Stop) (m : Machine) :
    machine (.error stop m : Outcome α) = m := rfl

@[simp] theorem stop?_ok (a : α) (m : Machine) : stop? (.ok a m) = none := rfl

@[simp] theorem stop?_error (stop : Stop) (m : Machine) :
    stop? (.error stop m : Outcome α) = some stop := rfl

end Outcome

/-- Whether a job is accepted, by the machine before it, why it stopped and the machine after. -/
abbrev Watch := Machine → Option Stop → Machine → Bool

namespace Watch

/-- The fault that ends a run at a refused job. -/
def refusal : Stop := .failed (.running (.badMemory "refused by a watch" 0))

/-- An outcome that a watch accepts, or the end of the run. -/
def check {α : Type} (watch : Watch) (m : Machine) (outcome : Outcome α) : Outcome α :=
  if watch m outcome.stop? outcome.machine then outcome else .error refusal outcome.machine

/-- The watch that accepts every job. -/
def permissive : Watch := fun _ _ _ => true

/-- An outcome of a top-level statement, where a fault that no handler takes ends the run at
once. -/
def atOnce {α : Type} : Outcome α → Outcome α
  | .error (.failed (.running fault)) m =>
    .error (if fault.isFatal then .exhausted else .failed (.running fault)) m
  | outcome => outcome

/-- An outcome without such a fault stays. -/
theorem atOnce_of_not_fatal {α : Type} {outcome : Outcome α}
    (h : ∀ fault m, outcome = .error (.failed (.running fault)) m → fault.isFatal = false) :
    atOnce outcome = outcome := by
  unfold atOnce
  split
  · rename_i fault m
    rw [h fault m rfl]
    rfl
  · rfl

/-- At the end of a top-level statement there is no such fault. -/
theorem isFatal_of_atOnce {α : Type} {outcome : Outcome α} {fault : Fault} {m : Machine}
    (h : atOnce outcome = .error (.failed (.running fault)) m) : fault.isFatal = false := by
  unfold atOnce at h
  split at h
  · split at h
    · cases h
    · rename_i hfatal
      cases h
      exact eq_false_of_ne_true hfatal
  · rename_i hother
    exact (hother _ _ h).elim

/-- What a watch accepts stays. -/
theorem check_of_accepts {α : Type} {watch : Watch} {m : Machine} {outcome : Outcome α}
    (h : watch m outcome.stop? outcome.machine = true) : watch.check m outcome = outcome :=
  if_pos h

end Watch

namespace Job

/-- Does a job with a bound on nesting, where a watch is shown it and all jobs nested in it. -/
def performWatched (watch : Watch) : Nat → JobRunner
  | 0, _, _ => Eval.exhausted
  | depth + 1, _, job => fun m =>
    watch.check m (step (fun nested => performWatched watch depth nested) job m)

end Job

namespace Eval

/-- Runs a program with a bound on nesting, where a watch is shown its jobs. -/
def runWatchedTo (watch : Watch) (depth : Nat) (program : Block) : Eval Unit :=
  runStatements (fun job m => Watch.atOnce (Job.performWatched watch depth job m)) program

/-- Runs a program where a watch is shown its jobs. -/
def runWatched (watch : Watch) (program : Block) : Eval Unit := fun m =>
  runWatchedTo watch (m.nestingBound (Stmt.sizeAll program) (Stmt.importsAny program)) program m

end Eval

end DecimalScript
