import DecimalScript.Number.Text
import Mathlib.Data.Rat.Floor

/-!
# Numbers as rationals

A number stands for a rational with six decimal places. An exact result is cut to the number that
is next to it on the side of zero. A decimal text denotes a rational by the places of its digits,
however many there are.
-/

namespace DecimalScript

namespace Number

/-- The rational that a number stands for. -/
def value (n : Number) : ℚ := n.raw / scale

/-- The whole part of a rational, truncated toward zero. -/
def towardZero (x : ℚ) : Int := if 0 ≤ x then ⌊x⌋ else ⌈x⌉

/-- A rational cut to six places toward zero, if that is in range. -/
def ofRational? (x : ℚ) : Option Number := ofRaw? (towardZero (x * scale))

/-- What is left of a division with a whole quotient: it is smaller than the divisor, and it is zero
or has the sign of the dividend. -/
structure IsRemainder (dividend divisor rest : ℚ) : Prop where
  /-- The quotient is whole. -/
  quotient : ∃ q : ℤ, dividend = q * divisor + rest
  /-- The rest is smaller than the divisor. -/
  smaller : |rest| < |divisor|
  /-- The rest does not point against the dividend. -/
  direction : rest = 0 ∨ 0 < dividend * rest

/-- A text is decimal and denotes a rational: it is a run of digits, or two runs around a point of
which at most one is empty. Each digit behind the point counts for a tenth of the one before it. -/
inductive Denotes : List Char → ℚ → Prop
  /-- A run of digits. -/
  | whole {digits : List Char} (hsome : digits ≠ []) (hdigits : ∀ c ∈ digits, c.isDigit) :
      Denotes digits (Nat.ofDigitChars 10 digits 0)
  /-- Two runs of digits around a point. -/
  | pointed {digits fraction : List Char} (hsome : digits ++ fraction ≠ [])
      (hdigits : ∀ c ∈ digits ++ fraction, c.isDigit) :
      Denotes (digits ++ '.' :: fraction) (Nat.ofDigitChars 10 digits 0 +
        Nat.ofDigitChars 10 fraction 0 / 10 ^ fraction.length)

end Number

end DecimalScript
