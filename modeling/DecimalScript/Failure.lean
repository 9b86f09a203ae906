import DecimalScript.Fault
import DecimalScript.Files.Tree
import DecimalScript.Syntax.Fault
import DecimalScript.Token.Scan

/-!
# Failures

A failure is whatever keeps a program from being read or run to its end. Faults of
evaluation and of loops speak for themselves; the others are introduced by what they
concern, and faults of the source end with their line.
-/

namespace DecimalScript

/-- What can go wrong. -/
inductive Failure where
  /-- A file or a sink cannot be used. -/
  | io (fault : IoFault)
  /-- A source cannot be split into tokens. -/
  | lexical (error : LexicalError)
  /-- Tokens are not a program. -/
  | syntactic (error : SyntaxError)
  /-- Evaluation failed. -/
  | running (fault : Fault)
  /-- A loop passed a limit. -/
  | loop (fault : LoopFault)
  deriving DecidableEq

/-- The wording of a failure. -/
def Failure.message : Failure → String
  | io fault => s!"io error: {fault.message}"
  | lexical error => s!"tokenizer error: {error.fault.message} (line {error.line})"
  | syntactic error => s!"parser error: {error.message} (line {error.line})"
  | running fault => fault.message
  | loop fault => fault.message

end DecimalScript
