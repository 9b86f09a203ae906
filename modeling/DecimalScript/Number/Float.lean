import DecimalScript.Number.Basic

/-!
# Numbers and binary floating point

A float becomes a number by scaling it to millionths in floating point and rounding
the scaled value to the nearest integer, a half away from zero. The rounding is done
exactly on the significand and exponent of the scaled float, so it is plain integer
arithmetic. A value that is not finite, or beyond the range, gives no number; the
power of two just above the range is pulled back to the greatest number.
-/

namespace DecimalScript

namespace Number

/-- A finite float as the sign, significand and exponent of `± significand · 2 ^ exponent`. -/
structure Binary where
  /-- The sign bit. -/
  negative : Bool
  /-- The integral significand. -/
  significand : Nat
  /-- The power of two it is scaled by. -/
  exponent : Int
  deriving DecidableEq

namespace Binary

/-- The leading bit of a normal significand, which is not stored. -/
def hiddenBit : Nat := 1 <<< 52

/-- The parts of a float from its IEEE 754 bits; infinities and NaNs have none. -/
def ofBits? (bits : Nat) : Option Binary :=
  let negative := (bits >>> 63) % 2 == 1
  let biased := (bits >>> 52) % 0x800
  let stored := bits % hiddenBit
  if biased = 2047 then none
  else if biased = 0 then some ⟨negative, stored, -1074⟩
  else some ⟨negative, stored + hiddenBit, (biased : Int) - 1075⟩

/-- The nearest integer, a half away from zero. -/
def round (b : Binary) : Int :=
  let magnitude :=
    if 0 ≤ b.exponent then b.significand <<< b.exponent.toNat
    else (b.significand + (1 <<< ((-b.exponent).toNat - 1))) >>> (-b.exponent).toNat
  if b.negative then -magnitude else magnitude

end Binary

/-- The number with a given count of millionths, where the count just above the range reads
as the greatest number. -/
def ofRoundedRaw? (raw : Int) : Option Number :=
  if raw = maxRaw + 1 then ofRaw? maxRaw else ofRaw? raw

/-- The number nearest to a float. -/
def ofFloat? (value : Float) : Option Number := do
  let scaled ← Binary.ofBits? (value * 1000000.0).toBits.toNat
  ofRoundedRaw? scaled.round

/-- The float nearest to the count of millionths, divided by the scale. -/
def toFloat (n : Number) : Float :=
  let magnitude := n.magnitude.toUInt64.toFloat
  (if n.raw < 0 then -magnitude else magnitude) / 1000000.0

/-- The ratio of a circle's circumference to its diameter. -/
def pi : Option Number := ofFloat? 3.141592653589793

/-- The base of the natural logarithm. -/
def euler : Option Number := ofFloat? 2.718281828459045

end Number

end DecimalScript
