import DecimalScript.Loop.History

/-!
# Loops in place

The same operations on a stack that is changed step by step. What was changed before an operation
is halted stays changed. The counters are words of 64 bits, and nothing guards them against
overflow.
-/

namespace DecimalScript

namespace Loop

/-- What halts an operation in place. -/
inductive Halt where
  /-- A limit refuses the operation. -/
  | refused (fault : LoopFault)
  /-- A counter has no room for one more. -/
  | overflow

/-- The counters of the statistics. -/
inductive Counter where
  | entered | iterations | errors

/-- What a counter has counted. -/
def Counter.read (statistics : Statistics) : Counter → Nat
  | entered => statistics.entered
  | iterations => statistics.iterations
  | errors => statistics.errors

/-- The statistics with another count. -/
def Counter.write (statistics : Statistics) (n : Nat) : Counter → Statistics
  | entered => { statistics with entered := n }
  | iterations => { statistics with iterations := n }
  | errors => { statistics with errors := n }

/-- A change of a stack in place. -/
abbrev InPlace (α : Type) := EStateM Halt Stack α

namespace InPlace

/-- Refuses an operation. -/
def refuse {α : Type} (fault : LoopFault) : InPlace α := throw (.refused fault)

/-- One more than a counter. -/
def countUp (n : Nat) : InPlace Nat :=
  if n + 1 < UInt64.size then return n + 1 else throw .overflow

/-- Counts one more in the statistics. -/
def count (counter : Counter) : InPlace Unit := do
  let n ← countUp (counter.read (← get).statistics)
  modify fun loops => { loops with statistics := counter.write loops.statistics n }

/-- Enters a loop and gives the number of loops in progress. -/
def push (context : Context) : InPlace Nat := do
  let loops ← get
  if loops.limits.maxDepth ≤ loops.depth then
    refuse (.depthExceeded loops.limits.maxDepth context.line)
  set { loops with contexts := loops.opened context :: loops.contexts }
  count .entered
  modify fun loops => { loops with
    statistics := { loops.statistics with
      maxDepth := max loops.statistics.maxDepth loops.depth } }
  return (← get).depth

/-- Leaves the innermost loop and gives it. -/
def pop : InPlace (Option Context) := do
  let loops ← get
  set { loops with contexts := loops.contexts.tail }
  return loops.contexts.head?

/-- Counts a turn of the innermost loop. -/
def tick : InPlace Unit := do
  let loops ← get
  match loops.contexts with
  | [] => return
  | context :: rest =>
    if context.maxTurns ≤ context.turns then
      refuse (.iterationLimit context.maxTurns context.line)
    let turns ← countUp context.turns
    set { loops with contexts := { context with turns } :: rest }
    count .iterations

/-- Notes the value of the current turn. -/
def advance (current : Number) : InPlace Unit := do
  let loops ← get
  match loops.contexts with
  | [] => return
  | context :: rest => set { loops with contexts := { context with current } :: rest }

/-- Counts a loop ended or refused by a limit. -/
def recordError : InPlace Unit := count .errors

/-- Leaves loops until at most a given number is in progress. -/
def unwindTo (depth : Nat) : InPlace Unit :=
  modify fun loops => { loops with contexts := loops.contexts.drop (loops.depth - depth) }

end InPlace

/-- An operation in place, whatever it gives. -/
def Operation.inPlace : Operation → InPlace Unit
  | .push name start stop step line => discard (InPlace.push (.begin name start stop step line))
  | .pop => discard InPlace.pop
  | .tick => InPlace.tick
  | .advance current => InPlace.advance current
  | .recordError => InPlace.recordError
  | .unwindTo depth => InPlace.unwindTo depth

end Loop

end DecimalScript
