import DecimalScript.Syntax.Basic

/-!
# Imports in syntax trees

A tree imports if there is an import anywhere in it, also in the body of a function that
it defines. Expressions hold no statements and so no imports.
-/

namespace DecimalScript

mutual

/-- Whether there is an import in a statement. -/
def Stmt.imports : Stmt → Bool
  | .use _ _ _ => true
  | .define _ _ _ _ body => Stmt.importsAny body
  | .branch _ _ whenTrue whenFalse => Stmt.importsAny whenTrue || Stmt.importsOption whenFalse
  | .repeatWhile _ _ body => Stmt.importsAny body
  | .repeatOver _ _ _ body => Stmt.importsAny body
  | .select _ _ cases otherwise => Stmt.importsCases cases || Stmt.importsOption otherwise
  | .attempt _ body _ handler => Stmt.importsAny body || Stmt.importsAny handler
  | .declare _ _ _ _ | .assign _ _ _ | .assignIndex _ _ _ _ | .assignProperty _ _ _
  | .print _ _ | .giveBack _ _ | .leave _ | .next _ | .evaluate _ => false

/-- Whether there is an import in a block. -/
def Stmt.importsAny : List Stmt → Bool
  | [] => false
  | stmt :: rest => stmt.imports || Stmt.importsAny rest

/-- Whether there is an import in a block that may be absent. -/
def Stmt.importsOption : Option (List Stmt) → Bool
  | none => false
  | some body => Stmt.importsAny body

/-- Whether there is an import in the cases of a selection. -/
def Stmt.importsCases : List (Expr × List Stmt) → Bool
  | [] => false
  | (_, body) :: rest => Stmt.importsAny body || Stmt.importsCases rest

end

end DecimalScript
