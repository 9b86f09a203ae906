import DecimalScript.Syntax.Basic

/-!
# Definitions in syntax trees

Definitions are counted wherever they stand, also in blocks and in the bodies of other
definitions. Each of them has a closing word of its own.
-/

namespace DecimalScript

mutual

/-- The number of definitions in a statement. -/
def Stmt.definitions : Stmt → Nat
  | .define _ _ _ _ body => 1 + Stmt.definitionsAll body
  | .branch _ _ whenTrue whenFalse =>
    Stmt.definitionsAll whenTrue + Stmt.definitionsOption whenFalse
  | .repeatWhile _ _ body => Stmt.definitionsAll body
  | .repeatOver _ _ _ body => Stmt.definitionsAll body
  | .select _ _ cases otherwise => Stmt.definitionsCases cases + Stmt.definitionsOption otherwise
  | .attempt _ body _ handler => Stmt.definitionsAll body + Stmt.definitionsAll handler
  | .use _ _ _ | .declare _ _ _ _ | .assign _ _ _ | .assignIndex _ _ _ _
  | .assignProperty _ _ _ | .print _ _ | .giveBack _ _ | .leave _ | .next _ | .evaluate _ => 0

/-- The number of definitions in a block. -/
def Stmt.definitionsAll : List Stmt → Nat
  | [] => 0
  | stmt :: rest => stmt.definitions + Stmt.definitionsAll rest

/-- The number of definitions in a block that may be absent. -/
def Stmt.definitionsOption : Option (List Stmt) → Nat
  | none => 0
  | some body => Stmt.definitionsAll body

/-- The number of definitions in the cases of a selection. -/
def Stmt.definitionsCases : List (Expr × List Stmt) → Nat
  | [] => 0
  | (_, body) :: rest => Stmt.definitionsAll body + Stmt.definitionsCases rest

end

attribute [simp] Stmt.definitions Stmt.definitionsAll Stmt.definitionsOption Stmt.definitionsCases

end DecimalScript
