import DecimalScript.Fault
import DecimalScript.Loop.Basic

/-!
# The stack of loops

A loop is entered unless too many are nested, and a turn is counted unless the loop has
used up its turns. A refused operation leaves the stack as it was. The innermost loop
stands first.
-/

namespace DecimalScript

namespace Loop

/-- The loops in progress with their limits and statistics. -/
structure Stack where
  /-- The loops in progress, innermost first. -/
  contexts : List Context := []
  /-- The limits in force. -/
  limits : Limits := {}
  /-- The counts so far. -/
  statistics : Statistics := {}
  deriving DecidableEq

namespace Stack

/-- The number of loops in progress. -/
def depth (loops : Stack) : Nat := loops.contexts.length

/-- The innermost loop. -/
def current? (loops : Stack) : Option Context := loops.contexts.head?

/-- Whether a range raises no concern: its step is not zero and leads toward its end, and its
width and step are within the limit. The answer is advice; a loop runs either way. -/
def rangeIsSound (loops : Stack) (start stop step : Number) : Bool :=
  let span := loops.limits.maxRangeSpan * 1000000
  !step.isZero && start.distance stop ≤ span && step.magnitude ≤ span &&
    !(0 < step.raw && stop < start) && !(step.raw < 0 && start < stop)

/-- Enters a loop. -/
def push (loops : Stack) (context : Context) : Except LoopFault Stack :=
  if loops.limits.maxDepth ≤ loops.depth then
    .error (.depthExceeded loops.limits.maxDepth context.line)
  else
    let entered := { context with
      parent := if loops.depth = 0 then none else some (loops.depth - 1)
      maxTurns := loops.limits.maxIterations }
    let statistics := { loops.statistics with
      entered := loops.statistics.entered + 1
      maxDepth := max loops.statistics.maxDepth (loops.depth + 1) }
    .ok { loops with contexts := entered :: loops.contexts, statistics }

/-- Leaves the innermost loop. -/
def pop (loops : Stack) : Stack := { loops with contexts := loops.contexts.tail }

/-- Counts a turn of the innermost loop. -/
def tick (loops : Stack) : Except LoopFault Stack :=
  match loops.contexts with
  | [] => .ok loops
  | context :: rest =>
    if context.maxTurns ≤ context.turns then
      .error (.iterationLimit context.maxTurns context.line)
    else
      .ok { loops with
        contexts := { context with turns := context.turns + 1 } :: rest
        statistics := { loops.statistics with
          iterations := loops.statistics.iterations + 1 } }

/-- Notes the value of the current turn. -/
def advance (loops : Stack) (current : Number) : Stack :=
  match loops.contexts with
  | [] => loops
  | context :: rest => { loops with contexts := { context with current } :: rest }

/-- Counts a loop ended or refused by a limit. -/
def recordError (loops : Stack) : Stack :=
  { loops with statistics := { loops.statistics with errors := loops.statistics.errors + 1 } }

/-- Leaves loops until at most a given number is in progress. -/
def unwindTo (loops : Stack) (depth : Nat) : Stack :=
  { loops with contexts := loops.contexts.drop (loops.depth - depth) }

/-- The context of a loop that is entered. -/
def opened (loops : Stack) (context : Context) : Context :=
  { context with
    parent := if loops.depth = 0 then none else some (loops.depth - 1)
    maxTurns := loops.limits.maxIterations }

variable {loops : Stack} {context : Context} {rest : List Context}

/-- A loop is refused where no other one may be nested. -/
theorem push_of_full (h : loops.limits.maxDepth ≤ loops.depth) :
    loops.push context = .error (.depthExceeded loops.limits.maxDepth context.line) := if_pos h

/-- A loop is entered where another one may be nested. -/
theorem push_of_room (h : loops.depth < loops.limits.maxDepth) :
    loops.push context = .ok { loops with
      contexts := loops.opened context :: loops.contexts
      statistics := { loops.statistics with
        entered := loops.statistics.entered + 1
        maxDepth := max loops.statistics.maxDepth (loops.depth + 1) } } :=
  if_neg (Nat.not_le_of_lt h)

/-- Outside of all loops no turn is counted. -/
theorem tick_of_nil (hcontexts : loops.contexts = []) : loops.tick = .ok loops := by
  rw [tick, hcontexts]

/-- A loop that has taken all its turns is refused another one. -/
theorem tick_of_full (hcontexts : loops.contexts = context :: rest)
    (h : context.maxTurns ≤ context.turns) :
    loops.tick = .error (.iterationLimit context.maxTurns context.line) := by
  rw [tick, hcontexts]
  exact if_pos h

/-- A loop that has turns left takes one more. -/
theorem tick_of_room (hcontexts : loops.contexts = context :: rest)
    (h : context.turns < context.maxTurns) :
    loops.tick = .ok { loops with
      contexts := { context with turns := context.turns + 1 } :: rest
      statistics := { loops.statistics with iterations := loops.statistics.iterations + 1 } } := by
  rw [tick, hcontexts]
  exact if_neg (Nat.not_le_of_lt h)

end Stack

end Loop

end DecimalScript
