import DecimalScript.Eval.Call

/-!
# Arguments from left to right

The end that several expressions come to, one after the other in the machines they leave: their
values in order, or the stop of the first one that has no value, with the ones behind it not
evaluated.
-/

namespace DecimalScript

namespace Eval

/-- The end that expressions come to from left to right. -/
inductive LeftToRight (run : JobRunner) :
    List Expr → Machine → EStateM.Result Stop Machine (List Value) → Prop
  /-- There is none left. -/
  | done (m : Machine) : LeftToRight @run [] m (.ok [] m)
  /-- The first one has a value, and so have the ones behind it. -/
  | value {expr : Expr} {rest : List Expr} {value : Value} {values : List Value}
      {m between after : Machine} (hfirst : run (.evaluate expr) m = .ok value between)
      (hrest : LeftToRight @run rest between (.ok values after)) :
      LeftToRight @run (expr :: rest) m (.ok (value :: values) after)
  /-- The first one has a value, and one behind it stops. -/
  | later {expr : Expr} {rest : List Expr} {value : Value} {stop : Stop}
      {m between after : Machine} (hfirst : run (.evaluate expr) m = .ok value between)
      (hrest : LeftToRight @run rest between (.error stop after)) :
      LeftToRight @run (expr :: rest) m (.error stop after)
  /-- The first one stops. -/
  | first {expr : Expr} {rest : List Expr} {stop : Stop} {m after : Machine}
      (hfirst : run (.evaluate expr) m = .error stop after) :
      LeftToRight @run (expr :: rest) m (.error stop after)

end Eval

end DecimalScript
