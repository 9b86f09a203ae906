import DecimalScript.Number.Rational

/-!
# Squaring by turns

A power is found in turns. Each turn takes up one binary digit of the exponent: where that digit is
set the square of the turn goes into the result, and the square is squared while digits are left.
A product that is out of range ends the loop without a result. Told as turns, the loop could go on
for ever; how it ends is a relation between where it stands and what it gives.
-/

namespace DecimalScript

namespace Number

/-- A rational lies between the least and the greatest number. -/
def Fits (x : ℚ) : Prop := (minRaw : ℚ) ≤ x * scale ∧ x * scale ≤ maxRaw

/-- Where the loop stands before a turn. -/
structure Squaring where
  /-- The product of the squares that were needed so far. -/
  result : Number
  /-- The square of this turn. -/
  square : Number
  /-- What is left of the exponent. -/
  exponent : Nat

namespace Squaring

/-- The result when the lowest digit of the exponent was taken up. -/
def product? (loop : Squaring) : Option Number :=
  if loop.exponent % 2 = 1 then loop.result.mul? loop.square else some loop.result

/-- The square for the next turn, if there is one. -/
def square? (loop : Squaring) : Option Number :=
  if 0 < loop.exponent / 2 then loop.square.mul? loop.square else some loop.square

/-- One turn, unless a product is out of range. -/
def turn (loop : Squaring) : Option Squaring := do
  let result ← loop.product?
  return ⟨result, ← loop.square?, loop.exponent / 2⟩

/-- How the loop ends, after how many turns. -/
inductive Ends : Squaring → Nat → Option Number → Prop
  /-- No digit of the exponent is left. -/
  | ended {loop : Squaring} (h : loop.exponent = 0) : Ends loop 0 (some loop.result)
  /-- A product is out of range. -/
  | refused {loop : Squaring} (h : 0 < loop.exponent) (hturn : loop.turn = none) : Ends loop 1 none
  /-- A turn is taken, and others may follow it. -/
  | turn {loop next : Squaring} {turns : Nat} {answer : Option Number} (h : 0 < loop.exponent)
      (hturn : loop.turn = some next) (hrest : Ends next turns answer) :
      Ends loop (turns + 1) answer

/-- The power that the loop is to find from where it stands. -/
def target (loop : Squaring) : ℚ := loop.result.value * loop.square.value ^ loop.exponent

end Squaring

end Number

end DecimalScript
