import DecimalScript.Syntax.Basic

/-!
# What a program declares

A program that is imported gives its alias the functions that it defines and the variables
that it declares, each at its top level; nothing that a nested block defines or declares
belongs to it.
-/

namespace DecimalScript

/-- The name of the function that a statement defines. -/
def Stmt.definedName? : Stmt → Option String
  | .define _ name _ _ _ => some name
  | _ => none

/-- The name of the variable that a statement declares. -/
def Stmt.declaredName? : Stmt → Option String
  | .declare _ name _ _ => some name
  | _ => none

/-- Whether a statement is an import. -/
def Stmt.isImport : Stmt → Bool
  | .use _ _ _ => true
  | _ => false

namespace Block

/-- The functions of a program. -/
def functionNames (program : Block) : List String := program.filterMap Stmt.definedName?

/-- The constants of a program. -/
def constantNames (program : Block) : List String := program.filterMap Stmt.declaredName?

end Block

end DecimalScript
