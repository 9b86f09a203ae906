import DecimalScript.Eval.Call

/-!
# Evaluating expressions

Operands are evaluated from left to right, except that the second operand of `and` and
`or` is left out when the first decides. A member of a name that no variable has may be
a constant of a module or library of that alias. Every lambda that is evaluated becomes
a value with a fresh identity.
-/

namespace DecimalScript

namespace Eval

variable (run : JobRunner)

/-- The value of a constant. -/
def literalValue : Literal → Value
  | .number n => .number n
  | .text s => .text s
  | .boolean b => .boolean b

/-- The value of a variable. -/
def readName (name : String) (line : Nat) : Eval Value := do
  match (← get).env.get? name with
  | some value => return value
  | none => raise (.undefinedVariable name line)

/-- The value of an operator with its operands. -/
def binary (op : BinaryOp) (left right : Expr) (line : Nat) : Eval Value := do
  match op with
  | .both =>
    if (← run (.evaluate left)).holds then
      return .boolean (← run (.evaluate right)).holds
    else return .boolean false
  | .either =>
    if (← run (.evaluate left)).holds then return .boolean true
    else return .boolean (← run (.evaluate right)).holds
  | op =>
    let a ← run (.evaluate left)
    let b ← run (.evaluate right)
    ofExcept (a.applyBinary op b line)

/-- The constant that a member of an alias is, where no variable has the name of the alias. -/
def constantOf? (m : Machine) (aliasName name : String) : Option Value :=
  if m.env.binds aliasName then none
  else
    match m.env.get? (qualified aliasName name) with
    | some value => some value
    | none =>
      match m.library? aliasName with
      | some library => library.constant? name
      | none => none

/-- The value of a member of what an expression evaluates to. -/
def memberOf (target : Expr) (name : String) (line : Nat) : Eval Value := do
  ofExcept ((← run (.evaluate target)).member name line)

/-- The value of a member. -/
def member (target : Expr) (name : String) (line : Nat) : Eval Value := do
  match target with
  | .var _ aliasName =>
    match constantOf? (← get) aliasName name with
    | some value => return value
    | none => memberOf run target name line
  | _ => memberOf run target name line

/-- The value of an element. -/
def element (target index : Expr) (line : Nat) : Eval Value := do
  let a ← run (.evaluate target)
  let b ← run (.evaluate index)
  ofExcept (a.element b line)

/-- The fields of an object, after those already evaluated. -/
def fields (done : NameTable Value) : List (String × Expr) → Eval (NameTable Value)
  | [] => pure done
  | (name, expr) :: rest => do
    let value ← run (.evaluate expr)
    fields (done.set name value) rest

/-- A lambda with a fresh identity. -/
def newLambda (params : List String) (body : Expr) : Eval Value := modifyGet fun m =>
  (.lambda m.nextLambda params body, { m with nextLambda := m.nextLambda + 1 })

/-- Evaluates an expression. -/
def evaluate (expr : Expr) : Eval Value := do
  match expr with
  | .literal _ value => return literalValue value
  | .var line name => readName name line
  | .negate line operand => ofExcept ((← run (.evaluate operand)).negated line)
  | .binary line op left right => binary run op left right line
  | .call line callee arguments => call run callee arguments line
  | .member line target name => member run target name line
  | .index line target index => element run target index line
  | .array _ elements => return .array (← evaluateAll run elements)
  | .object _ entries => return .object (← fields run [] entries)
  | .lambda _ params body => newLambda params body

end Eval

end DecimalScript
