import DecimalScript.Syntax.Basic

/-!
# Exits in syntax trees

A block can be left early by a statement that leaves a loop or a selection, goes on with
the next turn of a loop, or gives a value back. Such a statement concerns the innermost
construct around it that takes it: a loop takes the first two, a selection only the
first, and the body of a function all three. What no construct of a block takes is
exposed to what stands around the block.
-/

namespace DecimalScript

/-- The ways to leave a block before its end. -/
inductive Exit where
  /-- A loop or selection is left. -/
  | leave
  /-- The next turn of a loop follows. -/
  | next
  /-- A function is left. -/
  | giveBack
  deriving DecidableEq, Repr

namespace Exit

/-- Whether a loop passes an exit of its body on. -/
def passesLoop : Exit → Bool
  | giveBack => true
  | leave | next => false

/-- Whether a selection passes an exit of its blocks on. -/
def passesSelection : Exit → Bool
  | next | giveBack => true
  | leave => false

end Exit

mutual

/-- Whether an exit stands in a statement outside all that would take it. -/
def Stmt.exposes (exit : Exit) : Stmt → Bool
  | .leave _ => exit == .leave
  | .next _ => exit == .next
  | .giveBack _ _ => exit == .giveBack
  | .branch _ _ whenTrue whenFalse =>
    Stmt.exposesAny exit whenTrue || Stmt.exposesOption exit whenFalse
  | .repeatWhile _ _ body => exit.passesLoop && Stmt.exposesAny exit body
  | .repeatOver _ _ _ body => exit.passesLoop && Stmt.exposesAny exit body
  | .select _ _ cases otherwise =>
    exit.passesSelection && (Stmt.exposesCases exit cases || Stmt.exposesOption exit otherwise)
  | .attempt _ body _ handler => Stmt.exposesAny exit body || Stmt.exposesAny exit handler
  | .define _ _ _ _ _ | .use _ _ _ | .declare _ _ _ _ | .assign _ _ _ | .assignIndex _ _ _ _
  | .assignProperty _ _ _ | .print _ _ | .evaluate _ => false

/-- Whether an exit stands in a block outside all that would take it. -/
def Stmt.exposesAny (exit : Exit) : List Stmt → Bool
  | [] => false
  | stmt :: rest => Stmt.exposes exit stmt || Stmt.exposesAny exit rest

/-- Whether an exit is exposed in a block that may be absent. -/
def Stmt.exposesOption (exit : Exit) : Option (List Stmt) → Bool
  | none => false
  | some body => Stmt.exposesAny exit body

/-- Whether an exit is exposed in the block of a case. -/
def Stmt.exposesCases (exit : Exit) : List (Expr × List Stmt) → Bool
  | [] => false
  | (_, body) :: rest => Stmt.exposesAny exit body || Stmt.exposesCases exit rest

end

end DecimalScript
