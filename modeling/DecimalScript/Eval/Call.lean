import DecimalScript.Library.Table

/-!
# Calls

Arguments are evaluated from left to right before a call; only a built-in checks their
number first. A call binds its parameters in a scope of its own, and that scope is
closed and the count of calls restored whether or not the body succeeds. A plain name
is looked up among the functions, then the lambdas in variables, then the core library.
-/

namespace DecimalScript

namespace Eval

variable (run : JobRunner)

/-- The values of expressions, from left to right. -/
def evaluateAll : List Expr → Eval (List Value)
  | [] => pure []
  | expr :: rest => do
    let value ← run (.evaluate expr)
    return value :: (← evaluateAll rest)

/-- Runs statements until one does not end normally. -/
def executeBlock : Block → Eval Flow
  | [] => pure .normal
  | stmt :: rest => do
    match ← run (.execute stmt) with
    | .normal => executeBlock rest
    | flow => return flow

/-- Closes the innermost scope and counts down the calls by a given number, whether a body ended
with a value or a stop. A machine without an open scope is a fault. -/
def leaveScope {α : Type} (detail : String) (line calls : Nat)
    (result : EStateM.Result Stop Machine α) : EStateM.Result Stop Machine α :=
  match result with
  | .ok value m =>
    match m.env.popScope? with
    | some env => .ok value { m with env, callDepth := m.callDepth - calls }
    | none => underflow m
  | .error stop m =>
    match m.env.popScope? with
    | some env => .error stop { m with env, callDepth := m.callDepth - calls }
    | none => underflow m
where
  /-- The calls are counted down even so. -/
  underflow (m : Machine) : EStateM.Result Stop Machine α :=
    .error (.failed (.running (.badMemory detail line)))
      { m with callDepth := m.callDepth - calls }

/-- Runs a body with parameters bound in a scope of its own. -/
def invoke (params : List String) (values : List Value) (line : Nat) (body : Eval Value) :
    Eval Value := fun m =>
  if m.maxCallDepth ≤ m.callDepth then
    .error (.failed (.running (.recursion m.maxCallDepth line))) m
  else
    let env := m.env.pushScope.defineAll params values
    leaveScope "scope stack underflow" line 1
      (body { m with env, callDepth := m.callDepth + 1 })

/-- Refuses a call whose number of arguments is not that of the parameters. -/
def checkCount (name : String) (expected found line : Nat) : Eval Unit :=
  if expected = found then pure ()
  else raise (.wrongCount name (toString expected) found line)

/-- The value of a function body: what it gives back, or nothing. -/
def bodyValue (body : Block) : Eval Value := do
  match ← executeBlock run body with
  | .giveBack value => return value
  | _ => return .nothing

/-- Calls a function. -/
def callFunction (function : Function) (arguments : List Expr) (line : Nat) : Eval Value := do
  let values ← evaluateAll run arguments
  checkCount function.name function.params.length values.length line
  invoke (function.params.map (·.name)) values line (bodyValue run function.body)

/-- Calls a lambda. -/
def callLambda (params : List String) (body : Expr) (arguments : List Expr) (line : Nat) :
    Eval Value := do
  let values ← evaluateAll run arguments
  checkCount "lambda" params.length values.length line
  invoke params values line (run (.evaluate body))

/-- Calls a built-in. The number of arguments is checked before any of them is evaluated. -/
def callBuiltin (name : String) (builtin : Builtin) (arguments : List Expr) (line : Nat) :
    Eval Value := do
  let refused : Fault := .wrongCount name builtin.arityText arguments.length line
  if builtin.accepts arguments.length then
    let values ← evaluateAll run arguments
    (builtin.applyTo? values line).getD (raise refused)
  else raise refused

/-- The call of a library function by its name, if the library has it. -/
def callLibrary? (library : Library) (name : String) (arguments : List Expr) (line : Nat) :
    Option (Eval Value) :=
  (library.builtin? name).map fun builtin =>
    callBuiltin run (library.qualify name) builtin arguments line

/-- Calls a value, which must be a lambda. -/
def callValue (target : Value) (arguments : List Expr) (line : Nat) : Eval Value :=
  match target with
  | .lambda _ params body => callLambda run params body arguments line
  | other => raise (.cannotCall other.kind line)

/-- Calls a plain name. -/
def callName (name : String) (arguments : List Expr) (line : Nat) : Eval Value := do
  let m ← get
  match m.functions.get? name, m.env.get? name with
  | some function, _ => callFunction run function arguments line
  | none, some (.lambda _ params body) => callLambda run params body arguments line
  | none, bound =>
    match callLibrary? run .core name arguments line with
    | some call => call
    | none =>
      match bound with
      | some value => raise (.notFunction name value.kind line)
      | none => raise (.undefinedFunction name line)

/-- The name of a module member in tables. -/
def qualified (aliasName name : String) : String := aliasName ++ "." ++ name

/-- The call of a member of an alias, if it is a module function or a library function. -/
def callMember? (m : Machine) (aliasName name : String) (arguments : List Expr) (line : Nat) :
    Option (Eval Value) :=
  match m.functions.get? (qualified aliasName name) with
  | some function => some (callFunction run function arguments line)
  | none =>
    match m.library? aliasName with
    | some library => callLibrary? run library name arguments line
    | none => none

/-- Calls what an expression names or evaluates to. -/
def call (callee : Expr) (arguments : List Expr) (line : Nat) : Eval Value := do
  match callee with
  | .var _ name => callName run name arguments line
  | .member _ (.var _ aliasName) name =>
    let m ← get
    match callMember? run m aliasName name arguments line with
    | some call => call
    | none =>
      if m.env.binds aliasName then
        callValue run (← run (.evaluate callee)) arguments line
      else raise (.undefinedFunction (qualified aliasName name) line)
  | _ => callValue run (← run (.evaluate callee)) arguments line

end Eval

end DecimalScript
