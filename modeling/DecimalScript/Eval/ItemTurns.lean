import DecimalScript.Eval.Turns

/-!
# Turns over items

What a loop over items does from a machine on, whatever its body does: for one item after the other
it begins a turn and runs its body, until no item is left, a body leaves the loop, or a turn is
refused. The machines in which the body was run are kept, so that they can be counted and looked
into.
-/

namespace DecimalScript

namespace Eval

/-- The turn of an item begins: its position is noted in the context of the loop, the item is bound
to the loop variable, and the turn is counted. The body runs in the machine inside. -/
def ItemBegins (name : String) (position : Nat) (item : Value) (m inside : Machine) : Prop :=
  ∃ loops, (m.loops.advance (.ofCount position)).tick = .ok loops ∧
    inside = { m with loops, env := m.env.declare name item }

/-- The turns of the items that are left, from the position of the first one on. -/
inductive ItemTurns (name : String) (body : Eval Flow) :
    Nat → List Value → Machine → List Machine → Outcome Flow → Prop
  /-- No item is left. -/
  | finished {position : Nat} {m : Machine} : ItemTurns name body position [] m [] (.ok .normal m)
  /-- A turn is taken, and the next one follows it. -/
  | turn {position : Nat} {item : Value} {rest : List Value} {m inside after : Machine}
      {later : List Machine} {outcome : Outcome Flow}
      (hbegins : ItemBegins name position item m inside) (hends : GoesOn body inside after)
      (hrest : ItemTurns name body (position + 1) rest after later outcome) :
      ItemTurns name body position (item :: rest) m (inside :: later) outcome
  /-- A turn leaves the loop. -/
  | left {position : Nat} {item : Value} {rest : List Value} {m inside after : Machine}
      (hbegins : ItemBegins name position item m inside)
      (hends : body inside = .ok .leave after) :
      ItemTurns name body position (item :: rest) m [inside] (.ok .normal after)
  /-- A turn leaves the function around the loop. -/
  | gaveBack {position : Nat} {item value : Value} {rest : List Value} {m inside after : Machine}
      (hbegins : ItemBegins name position item m inside)
      (hends : body inside = .ok (.giveBack value) after) :
      ItemTurns name body position (item :: rest) m [inside] (.ok (.giveBack value) after)
  /-- A turn stops. -/
  | stopped {position : Nat} {item : Value} {rest : List Value} {m inside after : Machine}
      {stop : Stop} (hbegins : ItemBegins name position item m inside)
      (hends : body inside = .error stop after) :
      ItemTurns name body position (item :: rest) m [inside] (.error stop after)
  /-- A turn is refused after the item has been bound, and the loop ends with the report. -/
  | refused {position : Nat} {item : Value} {rest : List Value} {m : Machine} {fault : LoopFault}
      (htick : (m.loops.advance (.ofCount position)).tick = .error fault) :
      ItemTurns name body position (item :: rest) m []
        (refuse fault .normal { m with
          loops := m.loops.advance (.ofCount position), env := m.env.declare name item })

end Eval

end DecimalScript
