import DecimalScript.Eval.Expression
import DecimalScript.Eval.Import

/-!
# Executing statements

Loops run inside a context on the loop stack, which is left again however the loop ends.
A loop that passes a limit is reported and ends normally, so the statements around it go
on. A guarded block that fails is rolled back to the bindings, loops and calls at its
start before its handler runs, and what either of them bound is dropped at the end.
-/

namespace DecimalScript

namespace Eval

variable (run : JobRunner)

/-- Changes the variables. -/
def modifyEnv (change : Environment → Environment) : Eval Unit :=
  modify fun m => { m with env := change m.env }

/-- Changes the loop stack. -/
def modifyLoops (change : Loop.Stack → Loop.Stack) : Eval Unit :=
  modify fun m => { m with loops := change m.loops }

/-- Reports a loop that passed a limit, and goes on with a result. -/
def refuse {α : Type} (fault : LoopFault) (result : α) : Eval α := do
  modifyLoops (·.recordError)
  report fault.line fault.message
  return result

/-- Goes on with the loops that an operation leads to, or reports its refusal. -/
def withLoops {α : Type} (changed : Except LoopFault Loop.Stack) (refused : α) (body : Eval α) :
    Eval α :=
  match changed with
  | .error fault => refuse fault refused
  | .ok loops => do
    modifyLoops fun _ => loops
    body

/-- Runs the body of a loop inside its context. A loop nested too deeply is reported and skipped. -/
def inLoop (context : Loop.Context) (body : Eval Flow) : Eval Flow := do
  withLoops ((← get).loops.push context) .normal
    (afterwards body fun m => { m with loops := m.loops.pop })

/-- A turn that was counted: nothing if the next turn follows, or how the loop ends. -/
def countedTurn (body : Block) : Eval (Option Flow) := do
  match ← executeBlock run body with
  | .normal | .next => return none
  | .leave => return some .normal
  | .giveBack value => return some (.giveBack value)

/-- One turn of a loop, unless it has used up its turns. -/
def turn (body : Block) : Eval (Option Flow) := do
  withLoops (← get).loops.tick (some .normal) (countedTurn run body)

/-- Notes the value of a turn in the context of its loop, and binds the loop variable. -/
def beginTurn (name : String) (current : Number) (value : Value) : Eval Unit :=
  modify fun m => { m with
    loops := m.loops.advance current
    env := m.env.declare name value }

/-- The turns of a loop from a cursor on, with a bound on their number. Entering a turn tells
whether there is one, and after a turn the loop moves on or is over. -/
def loopTurns {σ : Type} (enter : σ → Eval Bool) (next : σ → Option σ) (body : Block) :
    Nat → σ → Eval Flow
  | 0, _ => exhausted
  | turns + 1, cursor => do
    if ← enter cursor then
      match ← turn run body with
      | some flow => return flow
      | none =>
        match next cursor with
        | none => return .normal
        | some following => loopTurns enter next body turns following
    else return .normal

/-- Runs a loop in its context. It begins at most one turn more than the limit, which is refused. -/
def executeLoop {σ : Type} (context : Loop.Context) (enter : σ → Eval Bool)
    (next : σ → Option σ) (body : Block) (first : σ) : Eval Flow := do
  let turns := (← get).loops.limits.maxIterations + 1
  inLoop context (loopTurns run enter next body turns first)

/-- A loop while a condition holds. -/
def executeWhile (condition : Expr) (body : Block) (line : Nat) : Eval Flow :=
  executeLoop run (Loop.Context.begin "while" .zero .zero .one line)
    (fun _ => do return (← run (.evaluate condition)).holds) some body ()

/-- A bound of a range. -/
def loopBound (expr : Expr) : Eval Number := do
  match ← run (.evaluate expr) with
  | .number n => return n
  | other => raise (.badBound other.kind expr.line)

/-- Whether a value has not passed the end of a range. -/
def withinRange (current stop step : Number) : Bool :=
  (0 < step.raw && current ≤ stop) || (step.raw < 0 && stop ≤ current)

/-- Enters the turn of a value of a range, unless it has passed the end. -/
def enterRange (name : String) (stop step current : Number) : Eval Bool := do
  if withinRange current stop step then
    beginTurn name current (.number current)
    return true
  else return false

/-- Whether a range raises no concern, which is for the record only. -/
def checkRange (start stop step : Number) : Eval Bool := do
  return (← get).loops.rangeIsSound start stop step

/-- A loop over a range, whether or not it raises a concern. A step of zero takes no turn. -/
def executeRange (name : String) (start stop step : Number) (body : Block) (line : Nat) :
    Eval Flow := do
  let _ ← checkRange start stop step
  if step.isZero then return .normal
  else
    executeLoop run (Loop.Context.begin name start stop step line) (enterRange name stop step)
      (·.add? step) body start

/-- Concerns about a range make no difference to its loop. -/
theorem executeRange_eq (name : String) (start stop step : Number) (body : Block) (line : Nat) :
    executeRange run name start stop step body line =
      if step.isZero then pure .normal
      else
        executeLoop run (Loop.Context.begin name start stop step line)
          (enterRange name stop step) (·.add? step) body start := rfl

/-- Enters the turn of the first of the items that are left, whose position is known. -/
def enterItems (name : String) (cursor : Nat × List Value) : Eval Bool := do
  match cursor with
  | (_, []) => return false
  | (position, item :: _) =>
    beginTurn name (.ofCount position) item
    return true

/-- A loop over items. -/
def executeItems (name : String) (items : List Value) (body : Block) (line : Nat) :
    Eval Flow :=
  executeLoop run (Loop.Context.begin name .zero (.ofCount items.length) .one line)
    (enterItems name) (fun (position, items) => some (position + 1, items.tail)) body (0, items)

/-- A loop over a range or over items. -/
def executeFor (name : String) (iteration : Iteration) (body : Block) (line : Nat) :
    Eval Flow := do
  match iteration with
  | .range start stop =>
    let start ← loopBound run start
    let stop ← loopBound run stop
    executeRange run name start stop .one body line
  | .step start stop step | .countdown start stop step =>
    let start ← loopBound run start
    let stop ← loopBound run stop
    let step ← loopBound run step
    executeRange run name start stop step body line
  | .items value =>
    let value ← run (.evaluate value)
    let items ← ofExcept (value.loopItems line)
    executeItems run name items body line

/-- The block of the first case that is equal to a value. -/
def findCase (subject : Value) : List (Expr × Block) → Eval (Option Block)
  | [] => return none
  | (expr, body) :: rest => do
    if (← run (.evaluate expr)).equal subject then return some body
    else findCase subject rest

/-- A selection. It is where a `break` in one of its blocks ends. -/
def executeSwitch (subject : Expr) (cases : List (Expr × Block)) (otherwise : Option Block) :
    Eval Flow := do
  let subject ← run (.evaluate subject)
  match (← findCase run subject cases).or otherwise with
  | none => return .normal
  | some body =>
    match ← executeBlock run body with
    | .leave => return .normal
    | flow => return flow

/-- A guarded block: the body, and if it fails in a way that can be handled, the handler from the
state of variables, loops and calls at the start. -/
def executeTry (body : Block) (failure : String) (handler : Block) : Eval Flow := fun m =>
  let mark := m.env.mark
  let restore := fun (after : Machine) => { after with env := after.env.restore mark }
  match executeBlock run body m with
  | .error (.failed (.running fault)) after =>
    if fault.isFatal then .error (.failed (.running fault)) (restore after)
    else
      afterwards (executeBlock run handler) restore { after with
        env := (after.env.restore mark).define failure (.text fault.description)
        loops := after.loops.unwindTo m.loops.depth
        callDepth := m.callDepth }
  | .error stop after => .error stop (restore after)
  | .ok flow after => .ok flow (restore after)

/-- The variable that a property assignment writes and the path below it: the constant of a
module, where the base is no variable but the qualified name is, or else the base. -/
def propertyTarget (env : Environment) (path : PropertyPath) : String × List String :=
  if !env.binds path.base && env.binds (qualified path.base path.first) then
    (qualified path.base path.first, path.rest)
  else (path.base, path.properties)

/-- Assigns a property of a variable; a variable that does not exist starts as an empty object. -/
def assignProperty (path : PropertyPath) (value : Value) (line : Nat) : Eval Unit := do
  let env := (← get).env
  let (name, properties) := propertyTarget env path
  match ((env.get? name).getD (.object [])).setPath properties value with
  | .ok changed => modifyEnv (·.assign name changed)
  | .error fault => raise (.cannotSet fault line)

/-- Assigns an element or property of a variable. -/
def assignElement (name : String) (index value : Value) (line : Nat) : Eval Unit := do
  match (← get).env.get? name with
  | none => raise (.undefinedVariable name line)
  | some target =>
    let changed ← ofExcept (target.withElement index value line)
    modifyEnv (·.write name changed)

/-- Writes values on one line. -/
def print (values : List Value) : Eval Unit :=
  write (String.intercalate " " (values.map (·.display)) ++ "\n")

/-- Executes a statement. -/
def execute (stmt : Stmt) : Eval Flow := do
  match stmt with
  | .use line target aliasName =>
    importModule run target aliasName line
    return .normal
  | .declare _ name _ expr =>
    let value ← run (.evaluate expr)
    modifyEnv (·.declare name value)
    return .normal
  | .assign _ name expr =>
    let value ← run (.evaluate expr)
    modifyEnv (·.assign name value)
    return .normal
  | .assignIndex line name index expr =>
    let index ← run (.evaluate index)
    let value ← run (.evaluate expr)
    assignElement name index value line
    return .normal
  | .assignProperty line path expr =>
    let value ← run (.evaluate expr)
    assignProperty path value line
    return .normal
  | .define _ name params returnType body =>
    let function : Function := ⟨name, params, returnType, body⟩
    modify fun m => { m with functions := m.functions.set name function }
    return .normal
  | .branch _ condition whenTrue whenFalse =>
    if (← run (.evaluate condition)).holds then executeBlock run whenTrue
    else executeBlock run (whenFalse.getD [])
  | .repeatWhile line condition body => executeWhile run condition body line
  | .repeatOver line name iteration body => executeFor run name iteration body line
  | .select _ subject cases otherwise => executeSwitch run subject cases otherwise
  | .attempt _ body failure handler => executeTry run body failure handler
  | .print _ arguments =>
    print (← evaluateAll run arguments)
    return .normal
  | .giveBack _ none => return .giveBack .nothing
  | .giveBack _ (some expr) => return .giveBack (← run (.evaluate expr))
  | .leave _ => return .leave
  | .next _ => return .next
  | .evaluate expr =>
    let _ ← run (.evaluate expr)
    return .normal

end Eval

end DecimalScript
