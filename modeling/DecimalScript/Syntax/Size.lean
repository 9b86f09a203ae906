import DecimalScript.Syntax.Basic

/-!
# Size of syntax trees

The size of a tree counts its nodes, and so bounds its depth as well as the number of
its statements of any kind. Every part of a tree is smaller than the tree.
-/

namespace DecimalScript

mutual

/-- The number of nodes of an expression. -/
def Expr.size : Expr → Nat
  | .literal _ _ => 1
  | .var _ _ => 1
  | .negate _ operand => operand.size + 1
  | .binary _ _ left right => left.size + right.size + 1
  | .call _ callee arguments => callee.size + Expr.sizeAll arguments + 1
  | .member _ target _ => target.size + 1
  | .index _ target position => target.size + position.size + 1
  | .array _ elements => Expr.sizeAll elements + 1
  | .object _ fields => Expr.sizeFields fields + 1
  | .lambda _ _ body => body.size + 1

/-- The number of nodes of a list of expressions. -/
def Expr.sizeAll : List Expr → Nat
  | [] => 0
  | expr :: rest => expr.size + Expr.sizeAll rest

/-- The number of nodes of the fields of an object. -/
def Expr.sizeFields : List (String × Expr) → Nat
  | [] => 0
  | (_, expr) :: rest => expr.size + Expr.sizeFields rest

end

/-- The number of nodes of what a loop runs over. -/
def Iteration.size : Iteration → Nat
  | .range start stop => start.size + stop.size
  | .step start stop width | .countdown start stop width =>
    start.size + stop.size + width.size
  | .items value => value.size

mutual

/-- The number of nodes of a statement. -/
def Stmt.size : Stmt → Nat
  | .use _ _ _ => 1
  | .declare _ _ _ value => value.size + 1
  | .assign _ _ value => value.size + 1
  | .assignIndex _ _ index value => index.size + value.size + 1
  | .assignProperty _ _ value => value.size + 1
  | .define _ _ _ _ body => Stmt.sizeAll body + 1
  | .branch _ condition whenTrue whenFalse =>
    condition.size + Stmt.sizeAll whenTrue + Stmt.sizeOption whenFalse + 1
  | .repeatWhile _ condition body => condition.size + Stmt.sizeAll body + 1
  | .repeatOver _ _ iteration body => iteration.size + Stmt.sizeAll body + 1
  | .select _ subject cases otherwise =>
    subject.size + Stmt.sizeCases cases + Stmt.sizeOption otherwise + 1
  | .attempt _ body _ handler => Stmt.sizeAll body + Stmt.sizeAll handler + 1
  | .print _ arguments => Expr.sizeAll arguments + 1
  | .giveBack _ none => 1
  | .giveBack _ (some value) => value.size + 1
  | .leave _ => 1
  | .next _ => 1
  | .evaluate value => value.size + 1

/-- The number of nodes of a block. -/
def Stmt.sizeAll : List Stmt → Nat
  | [] => 0
  | stmt :: rest => stmt.size + Stmt.sizeAll rest

/-- The number of nodes of a block that may be absent. -/
def Stmt.sizeOption : Option (List Stmt) → Nat
  | none => 0
  | some body => Stmt.sizeAll body

/-- The number of nodes of the cases of a selection. -/
def Stmt.sizeCases : List (Expr × List Stmt) → Nat
  | [] => 0
  | (value, body) :: rest => value.size + Stmt.sizeAll body + Stmt.sizeCases rest

end

end DecimalScript
