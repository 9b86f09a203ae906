import DecimalScript.Eval.Statement
import DecimalScript.Value.Path

/-!
# Assigning properties in place

A property assignment can be carried out on the variables themselves: a variable that is missing
is made first, then the way to the property is gone and made where it is missing, and only then
the value is put there. Whatever was made on the way stays if the assignment fails.
-/

namespace DecimalScript

/-- The expression that reads what a property assignment writes. -/
def PropertyPath.toExpr (line : Nat) (path : PropertyPath) : Expr :=
  path.properties.foldl (.member line) (.var line path.base)

namespace Eval

/-- The variables when a property was assigned in place, and the fault that ended the assignment,
if one did. -/
def assignInPlace (env : Environment) (path : PropertyPath) (value : Value) :
    Environment × Option Value.PathFault :=
  let (name, properties) := propertyTarget env path
  let made := if env.binds name then env else env.define name (.object [])
  let target := (made.get? name).getD .nothing
  let (changed, fault) := target.assignInPlace properties value
  (made.write name changed, fault)

end Eval

end DecimalScript
