import DecimalScript.Library.Basic

/-!
# The mathematical library

Absolute values, rounding and whole powers are exact in decimal arithmetic. Roots,
trigonometry and other powers are computed in floating point and rounded to six
places, and so is a random fraction, which may come out as one for that reason. Random
draws are taken from those of the machine.
-/

namespace DecimalScript

namespace Builtin

/-- The magnitude of a number. -/
def abs (a : Value) (line : Nat) : Except Fault Value := do
  inRange "abs" (← numberArg "abs" a line).abs? line

/-- A power: exact for an exponent that is a natural number, else in floating point. -/
def pow (a b : Value) (line : Nat) : Except Fault Value := do
  let base ← numberArg "pow" a line
  let exponent ← numberArg "pow" b line
  if exponent.isIntegral && 0 ≤ exponent.raw then
    inRange "pow" (base.power? exponent.whole.toNat) line
  else ofFloat "pow" (base.toFloat.pow exponent.toFloat) line

/-- The square root of a number that is not negative. -/
def sqrt (a : Value) (line : Nat) : Except Fault Value := do
  let n ← numberArg "sqrt" a line
  if n.raw < 0 then throw (.invalidOperation "sqrt() of a negative number" line)
  ofFloat "sqrt" n.toFloat.sqrt line

/-- The greatest integral number not above a number. -/
def floor (a : Value) (line : Nat) : Except Fault Value := do
  inRange "floor" (← numberArg "floor" a line).floor? line

/-- The least integral number not below a number. -/
def ceil (a : Value) (line : Nat) : Except Fault Value := do
  inRange "ceil" (← numberArg "ceil" a line).ceil? line

/-- A function of floating point. -/
def floating (name : String) (f : Float → Float) (a : Value) (line : Nat) :
    Except Fault Value := do
  ofFloat name (f (← numberArg name a line).toFloat) line

/-- The smaller of two numbers. -/
def min (a b : Value) (line : Nat) : Except Fault Value := do
  return .number ((← numberArg "min" a line).least (← numberArg "min" b line))

/-- The larger of two numbers. -/
def max (a b : Value) (line : Nat) : Except Fault Value := do
  return .number ((← numberArg "max" a line).greatest (← numberArg "max" b line))

/-- The number of floats that a random fraction is drawn from: two to the power of 53. -/
def fractionSteps : Nat := 9007199254740992

/-- The fraction that a draw stands for, as a float from zero up to but not including one. -/
def fraction (draw : Nat) : Float := draw.toUInt64.toFloat / 9007199254740992.0

/-- A random number from zero to one: a float below one, rounded. -/
def random (line : Nat) : Eval Value := do
  Eval.ofExcept (ofFloat "random" (fraction (← Eval.random fractionSteps)) line)

/-- A random whole number between the whole parts of two numbers, both included. -/
def randomInt (a b : Value) (line : Nat) : Eval Value := do
  let low := (← Eval.ofExcept (numberArg "randint" a line)).whole
  let high := (← Eval.ofExcept (numberArg "randint" b line)).whole
  if high < low then Eval.raise (.invalidOperation "randint() needs low <= high" line)
  return .ofInt (low + (← Eval.random ((high - low).toNat + 1)))

/-- A random element of an array that is not empty. -/
def choice (a : Value) (line : Nat) : Eval Value := do
  let items ← Eval.ofExcept (arrayArg "choice" a line)
  match items with
  | [] => Eval.raise (.invalidOperation "choice() of an empty array" line)
  | first :: _ => return items.getD (← Eval.random items.length) first

/-- The mathematical constants by name. -/
def constant? (name : String) : Option Value :=
  if name == "PI" then Number.pi.map .number
  else if name == "E" then Number.euler.map .number
  else none

/-- A mathematical constant by its name. -/
def getConstant (a : Value) (line : Nat) : Except Fault Value := do
  let name ← textArg "get_constant" a line
  match constant? name with
  | some value => return value
  | none => throw (.invalidOperation s!"unknown constant '{name}'" line)

/-- The built-ins of the mathematical library. -/
def math : NameTable Builtin := [
  ("abs", ofUnary abs), ("pow", ofBinary pow), ("sqrt", ofUnary sqrt),
  ("floor", ofUnary floor), ("ceil", ofUnary ceil), ("sin", ofUnary (floating "sin" Float.sin)),
  ("cos", ofUnary (floating "cos" Float.cos)), ("tan", ofUnary (floating "tan" Float.tan)),
  ("min", ofBinary min), ("max", ofBinary max), ("random", nullary random),
  ("randint", binary randomInt), ("choice", unary choice),
  ("get_constant", ofUnary getConstant)]

end Builtin

/-- The constants that can be read from a library. -/
def Library.constant? (library : Library) (name : String) : Option Value :=
  match library with
  | .math => Builtin.constant? name
  | _ => none

end DecimalScript
