import DecimalScript.Syntax.Grammar

/-!
# Canonical syntax trees

The trees that the grammar can produce. A lambda is only bound by a declaration, only a
number is negated, an operation has the line of its first operand, and a step is one that
a loop takes for the kind of step it is. Every canonical tree can be written as tokens.
-/

namespace DecimalScript

mutual

/-- Whether an expression may be read as an operand. -/
def Expr.Canonical : Expr → Prop
  | .literal _ _ | .var _ _ => True
  | .negate line operand => ∃ value, operand = .literal line (.number value)
  | .binary line _ left right => line = left.line ∧ left.Canonical ∧ right.Canonical
  | .call line callee arguments =>
    line = callee.line ∧ callee.Canonical ∧ Expr.CanonicalAll arguments
  | .member line target _ => line = target.line ∧ target.Canonical
  | .index line target position => line = target.line ∧ target.Canonical ∧ position.Canonical
  | .array _ elements => Expr.CanonicalAll elements
  | .object _ fields => Expr.CanonicalFields fields
  | .lambda _ _ _ => False

/-- Whether all expressions of a list may be read as operands. -/
def Expr.CanonicalAll : List Expr → Prop
  | [] => True
  | expr :: rest => expr.Canonical ∧ Expr.CanonicalAll rest

/-- Whether the values of all fields may be read as operands. -/
def Expr.CanonicalFields : List (String × Expr) → Prop
  | [] => True
  | (_, expr) :: rest => expr.Canonical ∧ Expr.CanonicalFields rest

end

/-- Whether an expression may be bound by a declaration. -/
def Expr.CanonicalInitializer : Expr → Prop
  | .lambda _ _ body => body.Canonical
  | expr => expr.Canonical

/-- Whether a loop may run over this. -/
def Iteration.Canonical : Iteration → Prop
  | .range start stop => start.Canonical ∧ stop.Canonical
  | .step start stop width | .countdown start stop width =>
    start.Canonical ∧ stop.Canonical ∧ width.Canonical
  | .items value => value.Canonical

mutual

/-- Whether a statement may be read. -/
def Stmt.Canonical : Stmt → Prop
  | .use _ _ _ | .giveBack _ none | .leave _ | .next _ => True
  | .declare _ _ _ value => value.CanonicalInitializer
  | .assign _ _ value | .assignProperty _ _ value | .giveBack _ (some value) => value.Canonical
  | .evaluate value => value.Canonical
  | .assignIndex _ _ index value => index.Canonical ∧ value.Canonical
  | .define _ _ _ _ body => Stmt.CanonicalAll body
  | .branch _ condition whenTrue whenFalse =>
    condition.Canonical ∧ Stmt.CanonicalAll whenTrue ∧ Stmt.CanonicalOption whenFalse
  | .repeatWhile _ condition body => condition.Canonical ∧ Stmt.CanonicalAll body
  | .repeatOver _ _ iteration body =>
    iteration.Canonical ∧ iteration.WellStepped ∧ Stmt.CanonicalAll body
  | .select _ subject cases otherwise =>
    subject.Canonical ∧ Stmt.CanonicalCases cases ∧ Stmt.CanonicalOption otherwise
  | .attempt _ body _ handler => Stmt.CanonicalAll body ∧ Stmt.CanonicalAll handler
  | .print _ arguments => Expr.CanonicalAll arguments

/-- Whether a block may be read. -/
def Stmt.CanonicalAll : List Stmt → Prop
  | [] => True
  | stmt :: rest => stmt.Canonical ∧ Stmt.CanonicalAll rest

/-- Whether a block that may be absent may be read. -/
def Stmt.CanonicalOption : Option (List Stmt) → Prop
  | none => True
  | some body => Stmt.CanonicalAll body

/-- Whether the cases of a selection may be read. -/
def Stmt.CanonicalCases : List (Expr × List Stmt) → Prop
  | [] => True
  | (value, body) :: rest =>
    value.Canonical ∧ Stmt.CanonicalAll body ∧ Stmt.CanonicalCases rest

end

end DecimalScript
