import DecimalScript.Library.Table

/-!
# Applying library functions to values

What a call of a library function comes to once its arguments have been evaluated.
-/

namespace DecimalScript

/-- A function of a library applied to values, if the library has it and it accepts that many. -/
def Library.answer? (library : Library) (name : String) (values : List Value) (line : Nat) :
    Option (Eval Value) :=
  (library.builtin? name).bind (·.applyTo? values line)

/-- A function of a library gives an answer for values, in whatever machine and line, and changes
nothing. -/
def Library.Answers (library : Library) (name : String) (values : List Value) (answer : Value) :
    Prop :=
  ∀ line, library.answer? name values line = some (pure answer)

namespace Library

variable {library : Library} {name : String} {a b c answer : Value}

/-- No two answers are given for the same values. -/
theorem Answers.unique {values : List Value} {other : Value} (h : library.Answers name values a)
    (hother : library.Answers name values other) : a = other := by
  have hpure : (pure a : Eval Value) = pure other := Option.some.inj ((h 0).symm.trans (hother 0))
  have hrun : (pure a : Eval Value) {} = (pure other : Eval Value) {} := by rw [hpure]
  cases hrun
  rfl

/-- A built-in of one value answers with what it computes from it. -/
theorem answers_unary {run : Value → Nat → Except Fault Value}
    (htable : library.builtin? name = some (.ofUnary run))
    (h : ∀ line, run a line = .ok answer) : library.Answers name [a] answer := by
  intro line
  rw [answer?, htable, ← show Eval.ofExcept (.ok answer) = pure answer from rfl, ← h line]
  rfl

/-- So does one of two values. -/
theorem answers_binary {run : Value → Value → Nat → Except Fault Value}
    (htable : library.builtin? name = some (.ofBinary run))
    (h : ∀ line, run a b line = .ok answer) : library.Answers name [a, b] answer := by
  intro line
  rw [answer?, htable, ← show Eval.ofExcept (.ok answer) = pure answer from rfl, ← h line]
  rfl

/-- So does one of three. -/
theorem answers_ternary {run : Value → Value → Value → Nat → Except Fault Value}
    (htable : library.builtin? name = some (.ofTernary run))
    (h : ∀ line, run a b c line = .ok answer) : library.Answers name [a, b, c] answer := by
  intro line
  rw [answer?, htable, ← show Eval.ofExcept (.ok answer) = pure answer from rfl, ← h line]
  rfl

end Library

end DecimalScript
