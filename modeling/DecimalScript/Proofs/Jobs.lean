import DecimalScript.Proofs.Statements

/-!
# Comparing jobs

One step of a job agrees if the jobs of its parts do, which are smaller than it. An
induction on the bound on nesting then compares whole runs.
-/

namespace DecimalScript

namespace Job

variable {α : Type}

/-- The size of the syntax of a job. -/
def size : Job α → Nat
  | .evaluate expr => expr.size
  | .execute stmt => stmt.size

/-- The expressions that are evaluated as part of a job. -/
def exprs : Job α → List Expr
  | .evaluate expr => expr.parts
  | .execute stmt => stmt.exprs

/-- The statements that are executed as part of a job. -/
def stmts : Job α → Block
  | .evaluate _ => []
  | .execute stmt => stmt.stmts

theorem size_pos (job : Job α) : 0 < job.size := by
  cases job with
  | evaluate expr => exact expr.size_pos
  | execute stmt => exact stmt.size_pos

theorem size_lt_of_mem_exprs {job : Job α} {expr : Expr} (h : expr ∈ job.exprs) :
    expr.size < job.size := by
  cases job with
  | evaluate whole => exact Expr.size_lt_of_mem_parts h
  | execute stmt => exact Stmt.size_lt_of_mem_exprs h

theorem size_lt_of_mem_stmts {job : Job α} {stmt : Stmt} (h : stmt ∈ job.stmts) :
    stmt.size < job.size := by
  cases job with
  | evaluate expr => cases h
  | execute whole => exact Stmt.size_lt_of_mem_stmts h

end Job

namespace Comparison

variable {C inner : Comparison} {run run' : JobRunner}

/-- One step of a job agrees if the jobs of its parts do and, inside calls and modules being
loaded, all legal jobs. -/
theorem step (hopens : C.Opens inner) (hinner : inner.Runs run run') {α : Type} {job : Job α}
    (hlegal : C.legal job) (hexprs : C.Evaluates run run' job.exprs)
    (hstmts : C.Executes run run' job.stmts) : C.Does true (Job.step run) (Job.step run') job := by
  cases job with
  | evaluate expr => exact evaluate hopens hinner hlegal hexprs
  | execute stmt => exact execute hopens hinner hlegal hexprs hstmts

/-- Ending a run with an allowed failure. -/
theorem abandon {failure : Failure} {m m' : Machine} (hallows : C.allows (.failed failure) m)
    (hm : C.related m m') :
    C.Agree (C.change .stmt) false (fun _ => True) m (Eval.abandon failure m)
      (Eval.abandon failure m') := by
  obtain ⟨loops, maxCalls, rfl⟩ := C.view hm
  show C.Agree _ _ _ m (EStateM.bind Eval.flush (fun _ => Eval.fail failure) m)
    (EStateM.bind Eval.flush (fun _ => Eval.fail failure) _)
  unfold EStateM.bind Eval.flush
  cases h : m.output.flush with
  | none => exact .stopped hallows hm (C.refl .stmt m)
  | some fault => exact .stopped (C.allows_io (.inl (Sink.mayFail_of_flush h))) hm (C.refl .stmt m)

/-- The statements of a program one after the other, where faults are reported. A statement that
ends the comparison is followed by nothing, not even by a flush. -/
theorem runStatements {program : Block} (h : C.Executes run run' program)
    (hreleased : ∀ stmt m stop after, run (.execute stmt) m = .error stop after →
      C.releases stop → stop = .exhausted) :
    C.Holds .stmt false (fun _ => True) (Eval.runStatements run program)
      (Eval.runStatements run' program) := by
  induction program with
  | nil => exact .flush
  | cons stmt rest ih =>
    obtain ⟨hfirst, hrest⟩ := List.forall_mem_cons.mp h
    intro m m' hm
    have hstmt : C.Agree (C.change .stmt) false C.goodFlow m (run (.execute stmt) m)
        (run' (.execute stmt) m') := hfirst m m' hm
    unfold Eval.runStatements
    generalize hrun : run (.execute stmt) m = r at hstmt ⊢
    generalize run' (.execute stmt) m' = r' at hstmt ⊢
    cases hstmt with
    | @returned flow after after' _ hrel hchange =>
      cases flow with
      | giveBack value => exact Criteria.Holds.after hchange (Criteria.Holds.flush after after' hrel)
      | normal | leave | next =>
        exact Criteria.Holds.after hchange (ih hrest after after' hrel)
    | @stopped stop after after' hallows hrel hchange =>
      cases stop with
      | exhausted => exact .stopped hallows hrel hchange
      | failed failure =>
        cases failure with
        | io _ | lexical _ | syntactic _ | loop _ =>
          exact Criteria.Holds.after hchange (abandon hallows hrel)
        | running fault =>
          dsimp only
          split
          · exact Criteria.Holds.after hchange (abandon hallows hrel)
          · refine Criteria.Holds.after hchange ?_
            have hreport : C.Holds .stmt false (fun _ => True)
                (do Eval.report fault.line fault.message; Eval.runStatements run rest)
                (do Eval.report fault.line fault.message; Eval.runStatements run' rest) :=
              .bind (.report _ _) fun _ _ => ih hrest
            exact hreport after after' hrel
    | @released stop after result h =>
      cases hreleased stmt m stop after hrun h
      exact .released h
    | hit hhits h => exact absurd hhits (by decide)

/-- Where a fault that no handler takes cannot be, ending the second run at it makes no
difference. -/
theorem executes_atOnce {program : Block} (h : C.Executes run run' program)
    (hallows : ∀ {fault m}, C.allows (.failed (.running fault)) m → fault.isFatal = false)
    (hreleases : ∀ {stop}, ¬ C.releases stop) :
    C.Executes run (fun job m => Watch.atOnce (run' job m)) program := by
  intro stmt hstmt m m' hm
  have hagree : C.Agree (C.change .stmt) false C.goodFlow m (run (.execute stmt) m)
      (run' (.execute stmt) m') := h stmt hstmt m m' hm
  show C.Agree (C.change .stmt) false C.goodFlow m (run (.execute stmt) m)
    (Watch.atOnce (run' (.execute stmt) m'))
  generalize run (.execute stmt) m = r at hagree ⊢
  generalize run' (.execute stmt) m' = r' at hagree ⊢
  cases hagree with
  | returned hgood hrel hchange => exact .returned hgood hrel hchange
  | @stopped stop after after' hstop hrel hchange =>
    rw [Watch.atOnce_of_not_fatal fun fault _ heq => by cases heq; exact hallows hstop]
    exact .stopped hstop hrel hchange
  | released hstop => exact absurd hstop hreleases
  | hit hhits _ => exact absurd hhits (by decide)

end Comparison

namespace Eval

/-- A flush leaves the machine as it is. -/
theorem machine_flush (m : Machine) : Outcome.machine (flush m) = m := by
  unfold flush
  split <;> rfl

/-- A flush stops with a fault of the device only. -/
theorem stop_of_flush {m after : Machine} {stop : Stop} (h : flush m = .error stop after) :
    ∃ fault, stop = .failed (.io fault) := by
  unfold flush at h
  split at h
  · cases h
  · cases h
    exact ⟨_, rfl⟩

/-- So does a report. -/
theorem stop_of_report {line : Nat} {message : String} {m after : Machine} {stop : Stop}
    (h : report line message m = .error stop after) : ∃ fault, stop = .failed (.io fault) := by
  change writeError _ m = _ at h
  rw [writeError_eq] at h
  split at h
  · cases h
  · cases h
    exact ⟨_, rfl⟩

/-- Ending a run leaves the machine as it is. -/
theorem machine_abandon (failure : Failure) (m : Machine) :
    Outcome.machine (abandon failure m) = m := by
  show Outcome.machine (EStateM.bind flush (fun _ => fail failure) m) = m
  unfold EStateM.bind flush
  cases m.output.flush <;> rfl

/-- A run that is ended stops with its failure or with a fault of the device. -/
theorem stop_of_abandon {failure : Failure} {m after : Machine} {stop : Stop}
    (h : abandon failure m = .error stop after) :
    stop = .failed failure ∨ ∃ fault, stop = .failed (.io fault) := by
  change EStateM.bind flush (fun _ => fail failure) m = _ at h
  unfold EStateM.bind at h
  split at h
  · cases h
    exact .inl rfl
  · rename_i hflush
    cases h
    exact .inr (stop_of_flush hflush)

/-- A program does not end with a fault that could be handled. -/
theorem isFatal_of_runStatements {run : JobRunner} {program : Block} {m after : Machine}
    {fault : Fault} (h : runStatements run program m = .error (.failed (.running fault)) after) :
    fault.isFatal = true := by
  induction program generalizing m with
  | nil => cases stop_of_flush h with | intro _ hstop => cases hstop
  | cons stmt rest ih =>
    unfold runStatements at h
    split at h
    · cases stop_of_flush h with | intro _ hstop => cases hstop
    · exact ih h
    · split at h
      · rename_i hfatal
        rcases stop_of_abandon h with hstop | ⟨_, hstop⟩
        · cases hstop
          exact hfatal
        · cases hstop
      · change EStateM.bind _ _ _ = _ at h
        unfold EStateM.bind at h
        split at h
        · exact ih h
        · rename_i hreport
          cases h
          cases stop_of_report hreport with | intro _ hstop => cases hstop
    · rename_i hother hrun
      rcases stop_of_abandon h with hstop | ⟨_, hstop⟩
      · cases hstop
        exact (hother _ rfl).elim
      · cases hstop
    · cases h

end Eval

end DecimalScript
