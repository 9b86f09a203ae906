import DecimalScript.Eval.Perform

/-!
# Programs that run through

A program goes on behind a top-level statement unless the statement gives back a value or ends
the run. A program runs through if it goes on behind each of its statements.
-/

namespace DecimalScript

namespace Eval

/-- The machine with which a program goes on behind a statement, a fault reported. Nothing, if the
statement gives back a value or ends the run. -/
def behind? (run : JobRunner) (stmt : Stmt) (m : Machine) : Option Machine :=
  match run (.execute stmt) m with
  | .ok (.giveBack _) _ => none
  | .ok _ after => some after
  | .error (.failed (.running fault)) after =>
    if fault.isFatal then none
    else
      match report fault.line fault.message after with
      | .ok _ reported => some reported
      | .error _ _ => none
  | .error _ _ => none

/-- Whether a program goes on behind each of its statements. -/
def passes (run : JobRunner) : Block → Machine → Bool
  | [], _ => true
  | stmt :: rest, m =>
    match behind? run stmt m with
    | none => false
    | some after => passes run rest after

/-- Whether no top-level statement of a program gives back a value or ends the run. -/
def runsThrough (program : Block) (m : Machine) : Bool :=
  passes (Job.perform (m.nestingBound (Stmt.sizeAll program) (Stmt.importsAny program))) program m

end Eval

end DecimalScript
