import DecimalScript.Loop.Stack

/-!
# Histories of loops

The operations that have been performed on a stack of loops, each with the stack as it was then.
What the statistics of the stack should count can be told from them: which operations entered a
loop or counted a turn, and what has become of the loops that were entered.
-/

namespace DecimalScript

namespace Loop

/-- What can be done with a stack of loops. -/
inductive Operation where
  /-- Enters a loop about to begin. -/
  | push (name : String) (start stop step : Number) (line : Nat)
  /-- Leaves the innermost loop. -/
  | pop
  /-- Counts a turn of the innermost loop. -/
  | tick
  /-- Notes the value of the current turn. -/
  | advance (current : Number)
  /-- Counts a loop ended or refused by a limit. -/
  | recordError
  /-- Leaves loops until at most a given number is in progress. -/
  | unwindTo (depth : Nat)
  deriving DecidableEq

namespace Stack

/-- The stack after an operation, unless it is refused. -/
def perform (loops : Stack) : Operation → Except LoopFault Stack
  | .push name start stop step line => loops.push (.begin name start stop step line)
  | .pop => .ok loops.pop
  | .tick => loops.tick
  | .advance current => .ok (loops.advance current)
  | .recordError => .ok loops.recordError
  | .unwindTo depth => .ok (loops.unwindTo depth)

/-- The stack after an operation, which stays as it was if the operation is refused. -/
def after (loops : Stack) (op : Operation) : Stack :=
  match loops.perform op with
  | .ok after => after
  | .error _ => loops

/-- The stack after operations. -/
def run (loops : Stack) : List Operation → Stack
  | [] => loops
  | op :: rest => run (loops.after op) rest

end Stack

/-- An operation and the stack it is performed on. -/
structure Deed where
  /-- The stack before the operation. -/
  before : Stack
  /-- The operation. -/
  op : Operation
  deriving DecidableEq

/-- The deeds that operations on a stack are. -/
def Stack.deeds (loops : Stack) : List Operation → List Deed
  | [] => []
  | op :: rest => ⟨loops, op⟩ :: deeds (loops.after op) rest

/-- The loop as it was when it was about to begin. -/
def Context.unbegun (context : Context) : Context :=
  .begin context.name context.start context.stop context.step context.line

/-- The turns that loops have taken together. -/
def turnsTaken : List Context → Nat
  | [] => 0
  | context :: rest => context.turns + turnsTaken rest

namespace Deed

/-- The stack after an operation. -/
def after (deed : Deed) : Stack := deed.before.after deed.op

/-- Whether an operation is not refused. -/
def accepted (deed : Deed) : Bool := (deed.before.perform deed.op).isOk

/-- Whether a loop is entered. -/
def enters (deed : Deed) : Bool :=
  match deed.op with
  | .push .. => deed.accepted
  | _ => false

/-- Whether a turn of a loop is counted. -/
def counts (deed : Deed) : Bool :=
  match deed.op with
  | .tick => deed.accepted && !deed.before.contexts.isEmpty
  | _ => false

/-- Whether an error is recorded. -/
def records (deed : Deed) : Bool := deed.op == .recordError

/-- The loop that is entered, if one is, as it was about to begin. -/
def begun (deed : Deed) : List Context :=
  match deed.op with
  | .push name start stop step line =>
    if deed.accepted then [.begin name start stop step line] else []
  | _ => []

/-- The loops that are left, as they were then. -/
def left (deed : Deed) : List Context :=
  deed.before.contexts.take (deed.before.depth - deed.after.depth)

end Deed

/-- All loops that were entered, each as it was when it was left or as it is now. -/
def everEntered (past : List Deed) (now : Stack) : List Context :=
  past.flatMap Deed.left ++ now.contexts

/-- All states that there were. -/
def states (past : List Deed) (now : Stack) : List Stack := past.map (·.before) ++ [now]

/-- A loop at a position of the stack, counted from the outermost: it belongs to the one outside of
it and has taken no more turns than the limit lets it. -/
structure Context.Nested (limits : Limits) (position : Nat) (context : Context) : Prop where
  /-- The enclosing loop is at the position before, and the outermost loop has none. -/
  parent : context.parent = if position = 0 then none else some (position - 1)
  /-- It may take as many turns as the limit says. -/
  maxTurns : context.maxTurns = limits.maxIterations
  /-- It has not taken more. -/
  turns : context.turns ≤ limits.maxIterations

/-- What a stack of loops and its statistics keep of the operations that led to it. -/
structure Recorded (limits : Limits) (past : List Deed) (now : Stack) : Prop where
  /-- The limits stay. -/
  kept : now.limits = limits
  /-- No more loops are nested than the limit lets them. -/
  depth : now.depth ≤ limits.maxDepth
  /-- The loops are nested in the order of the stack. -/
  nested : ∀ (i : Nat) (context : Context), now.contexts.reverse[i]? = some context →
    context.Nested limits i
  /-- As many loops were entered as entering one succeeded. -/
  entered : now.statistics.entered = past.countP Deed.enters
  /-- As many turns were taken as counting one succeeded in a loop. -/
  iterations : now.statistics.iterations = past.countP Deed.counts
  /-- As many errors were counted as recorded. -/
  errors : now.statistics.errors = past.countP Deed.records
  /-- The loops that were left and those in progress are those that were entered. -/
  ever : ((everEntered past now).map Context.unbegun).Perm (past.flatMap Deed.begun)
  /-- They have taken together as many turns as were counted. -/
  turns : turnsTaken (everEntered past now) = now.statistics.iterations
  /-- No state was deeper than the greatest depth. -/
  maxDepth : ∀ loops ∈ states past now, loops.depth ≤ now.statistics.maxDepth
  /-- One state was as deep. -/
  deepest : ∃ loops ∈ states past now, loops.depth = now.statistics.maxDepth

end Loop

end DecimalScript
