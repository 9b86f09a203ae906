import DecimalScript.Eval.Statement
import DecimalScript.Eval.Watch
import DecimalScript.Loop.Progression

/-!
# Turns in a row

What a loop over a range does apart from deciding how often: it begins a turn, runs its body,
and begins the next one. A run of turns keeps the machines in which the body was run, so that
they can be counted and looked into. The same is kept of what a loop of any kind does, whatever its
body does.
-/

namespace DecimalScript

namespace Eval

/-- A turn begins: its value is noted in the context of the loop and bound to the loop variable, and
the turn is counted. The body runs in the machine inside. -/
def TurnBegins (name : String) (value : Number) (m inside : Machine) : Prop :=
  ∃ loops, (m.loops.advance value).tick = .ok loops ∧
    inside = { m with loops, env := m.env.declare name (.number value) }

/-- The body of a loop ends so that the next turn follows. -/
def GoesOn (body : Eval Flow) (inside after : Machine) : Prop :=
  body inside = .ok .normal after ∨ body inside = .ok .next after

/-- Turns with given values are taken one after the other, from a machine to another one. The body
is run once in each of the machines listed. -/
inductive Turns (name : String) (body : Eval Flow) :
    List Number → Machine → List Machine → Machine → Prop
  /-- No turn is taken. -/
  | none {m : Machine} : Turns name body [] m [] m
  /-- A turn is taken, and others follow it. -/
  | turn {value : Number} {values : List Number} {m inside after last : Machine}
      {later : List Machine} (hbegins : TurnBegins name value m inside)
      (hends : GoesOn body inside after) (hrest : Turns name body values after later last) :
      Turns name body (value :: values) m (inside :: later) last

/-- The turn of a cursor is entered and counted, if so many were taken before and another one may
be. The body runs in the machine inside. -/
def RunsIn {σ : Type} (enter : σ → Eval Bool) (limit taken : Nat) (cursor : σ)
    (m inside : Machine) : Prop :=
  taken < limit ∧ ∃ entered loops, enter cursor m = .ok true entered ∧
    entered.loops.tick = .ok loops ∧ inside = { entered with loops }

/-- What a loop in a line does from a cursor and a machine on when it has taken some turns. The body
is run once in each of the machines listed, and nowhere else. -/
inductive LoopRuns {σ : Type} (enter : σ → Eval Bool) (next : σ → Option σ) (body : Eval Flow)
    (limit line : Nat) : Nat → σ → Machine → List Machine → Outcome Flow → Prop
  /-- There is no further turn. -/
  | finished {taken : Nat} {cursor : σ} {m after : Machine} (h : enter cursor m = .ok false after) :
      LoopRuns enter next body limit line taken cursor m [] (.ok .normal after)
  /-- Whether there is one cannot be told. -/
  | broken {taken : Nat} {cursor : σ} {m after : Machine} {stop : Stop}
      (h : enter cursor m = .error stop after) :
      LoopRuns enter next body limit line taken cursor m [] (.error stop after)
  /-- There is one, but as many as may be have been taken, and the loop ends with the report. -/
  | refused {cursor : σ} {m entered : Machine} (h : enter cursor m = .ok true entered)
      (htick : entered.loops.tick = .error (.iterationLimit limit line)) :
      LoopRuns enter next body limit line limit cursor m []
        (refuse (.iterationLimit limit line) .normal entered)
  /-- The body stops. -/
  | stopped {taken : Nat} {cursor : σ} {m inside after : Machine} {stop : Stop}
      (h : RunsIn enter limit taken cursor m inside) (hends : body inside = .error stop after) :
      LoopRuns enter next body limit line taken cursor m [inside] (.error stop after)
  /-- The body leaves the loop. -/
  | left {taken : Nat} {cursor : σ} {m inside after : Machine}
      (h : RunsIn enter limit taken cursor m inside) (hends : body inside = .ok .leave after) :
      LoopRuns enter next body limit line taken cursor m [inside] (.ok .normal after)
  /-- The body leaves the function around the loop. -/
  | gaveBack {taken : Nat} {cursor : σ} {m inside after : Machine} {value : Value}
      (h : RunsIn enter limit taken cursor m inside)
      (hends : body inside = .ok (.giveBack value) after) :
      LoopRuns enter next body limit line taken cursor m [inside] (.ok (.giveBack value) after)
  /-- The body ends, and there is no next cursor. -/
  | last {taken : Nat} {cursor : σ} {m inside after : Machine}
      (h : RunsIn enter limit taken cursor m inside) (hends : GoesOn body inside after)
      (hnext : next cursor = none) :
      LoopRuns enter next body limit line taken cursor m [inside] (.ok .normal after)
  /-- The body ends, and the loop goes on from the next cursor. -/
  | turn {taken : Nat} {cursor following : σ} {m inside after : Machine} {later : List Machine}
      {outcome : Outcome Flow} (h : RunsIn enter limit taken cursor m inside)
      (hends : GoesOn body inside after) (hnext : next cursor = some following)
      (hrest : LoopRuns enter next body limit line (taken + 1) following after later outcome) :
      LoopRuns enter next body limit line taken cursor m (inside :: later) outcome

/-- A turn that is begun and refused: it is neither counted nor executed, and the loop ends. -/
def refusedTurn (name : String) (value : Number) (limit line : Nat) : Eval Flow := do
  beginTurn name value (.number value)
  refuse (.iterationLimit limit line) .normal

/-- The values that the expressions of an iteration over a range have: start, end and step. -/
def rangeBounds (run : JobRunner) : Iteration → Eval (Option (Number × Number × Number))
  | .range start stop => do
    let start ← loopBound run start
    let stop ← loopBound run stop
    return some (start, stop, .one)
  | .step start stop step | .countdown start stop step => do
    let start ← loopBound run start
    let stop ← loopBound run stop
    let step ← loopBound run step
    return some (start, stop, step)
  | .items _ => return none

end Eval

end DecimalScript
