import DecimalScript.Eval.Bound
import DecimalScript.Eval.Statement

/-!
# Running programs

Nested evaluation is given a bound that is computed from the machine and the syntax at
hand. A program is run statement by statement: a fault that could be handled is
reported and the next statement follows, any other failure ends the run. The output is
flushed at the end, and a flush that fails is what the run ends with.
-/

namespace DecimalScript

namespace Job

/-- Does a job, given how nested jobs are done. -/
def step (run : JobRunner) : {α : Type} → Job α → Eval α
  | _, .evaluate expr => Eval.evaluate run expr
  | _, .execute stmt => Eval.execute run stmt

/-- Does a job with a bound on nesting. -/
def perform : Nat → JobRunner
  | 0, _, _ => Eval.exhausted
  | depth + 1, _, job => step (fun nested => perform depth nested) job

end Job

namespace Eval

/-- Runs an evaluation with nested jobs, given the size of the syntax it may touch besides what
the machine holds, and whether that syntax imports. -/
def bounded {α : Type} (size : Nat) (importing : Bool) (body : JobRunner → Eval α) : Eval α :=
  fun m =>
    let depth := m.nestingBound size importing
    body (fun job => Job.perform depth job) m

/-- Ends a run with a failure, after the output is flushed. -/
def abandon (failure : Failure) : Eval Unit := do
  flush
  fail failure

/-- Runs the statements of a program one after the other. -/
def runStatements (run : JobRunner) : Block → Eval Unit
  | [] => flush
  | stmt :: rest => fun m =>
    match run (.execute stmt) m with
    | .ok (.giveBack _) m => flush m
    | .ok _ m => runStatements run rest m
    | .error (.failed (.running fault)) m =>
      if fault.isFatal then abandon (.running fault) m
      else
        (do
          report fault.line fault.message
          runStatements run rest) m
    | .error (.failed failure) m => abandon failure m
    | .error .exhausted m => .error .exhausted m

/-- Runs a program. -/
def runProgram (program : Block) : Eval Unit :=
  bounded (Stmt.sizeAll program) (Stmt.importsAny program) fun run => runStatements run program

/-- Runs a source. -/
def runSource (source : List UInt8) : Eval Unit :=
  match Block.ofSource source with
  | .ok program => runProgram program
  | .error stop => throw stop

/-- Executes a block. -/
def runBlock (block : Block) : Eval Flow :=
  bounded (Stmt.sizeAll block) (Stmt.importsAny block) fun run => executeBlock run block

/-- Evaluates an expression. -/
def runExpr (expr : Expr) : Eval Value :=
  bounded expr.size false fun run => run (.evaluate expr)

/-- Calls a library function with unevaluated arguments; nothing if the library lacks it. -/
def runLibrary? (library : Library) (name : String) (arguments : List Expr) (line : Nat) :
    Option (Eval Value) :=
  (library.builtin? name).map fun builtin =>
    bounded (Expr.sizeAll arguments) false fun run =>
      callBuiltin run (library.qualify name) builtin arguments line

end Eval

end DecimalScript
