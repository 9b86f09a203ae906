import DecimalScript.Number.Basic

/-!
# Loops in progress

Every loop in progress has a context with its bounds, the turns it has taken and the
number it may take. Statistics count over all loops, also those that have ended.
-/

namespace DecimalScript

namespace Loop

/-- The limits that keep loops finite. -/
structure Limits where
  /-- The turns one loop may take. -/
  maxIterations : Nat := 1000000
  /-- The loops that may be nested. -/
  maxDepth : Nat := 100
  /-- The widest range, and the longest step, that raises no concern. -/
  maxRangeSpan : Nat := 1000000
  deriving DecidableEq, Repr

/-- A loop in progress. -/
structure Context where
  /-- The name of its variable. -/
  name : String
  /-- The value of the current turn. -/
  current : Number
  /-- The first value. -/
  start : Number
  /-- The last value that may be reached. -/
  stop : Number
  /-- The difference between the values of successive turns. -/
  step : Number
  /-- The turns taken. -/
  turns : Nat := 0
  /-- The turns it may take. -/
  maxTurns : Nat := 0
  /-- The line of the loop. -/
  line : Nat
  /-- The position of the enclosing loop, counted from the outermost. -/
  parent : Option Nat := none
  deriving DecidableEq

/-- A loop about to begin. -/
def Context.begin (name : String) (start stop step : Number) (line : Nat) : Context :=
  { name, current := start, start, stop, step, line }

/-- Counts over all loops. -/
structure Statistics where
  /-- The loops begun. -/
  entered : Nat := 0
  /-- The turns taken. -/
  iterations : Nat := 0
  /-- The greatest depth of nesting. -/
  maxDepth : Nat := 0
  /-- The loops ended or refused by a limit. -/
  errors : Nat := 0
  deriving DecidableEq, Repr

/-- The report of statistics, one count a line. -/
def Statistics.text (s : Statistics) : String :=
  s!"loops entered:       {s.entered}\niterations executed: {s.iterations}\n" ++
  s!"max depth reached:   {s.maxDepth}\nloops with errors:   {s.errors}"

end Loop

end DecimalScript
