/-!
# Six-place decimal numbers

A number is a whole count of millionths that fits a signed 64-bit word. Every
operation computes the exact integer result first and then asks whether it is in
range, so no intermediate step can wrap. Products, quotients and whole parts are
truncated toward zero; remainders take the sign of the dividend.
-/

namespace DecimalScript

namespace Number

/-- The number of millionths in one unit. -/
def scale : Int := 1000000

/-- The number of decimal places kept. -/
def places : Nat := 6

/-- The least count of millionths. -/
def minRaw : Int := -9223372036854775808

/-- The greatest count of millionths. -/
def maxRaw : Int := 9223372036854775807

end Number

/-- A decimal number with six places and a bounded magnitude. -/
structure Number where
  /-- The count of millionths. -/
  raw : Int
  /-- The count is not below the range. -/
  minRaw_le : Number.minRaw ≤ raw := by decide
  /-- The count is not above the range. -/
  le_maxRaw : raw ≤ Number.maxRaw := by decide
  deriving DecidableEq

namespace Number

/-- The number with a given count of millionths, if the count is in range. -/
def ofRaw? (raw : Int) : Option Number :=
  if h : minRaw ≤ raw ∧ raw ≤ maxRaw then some ⟨raw, h.1, h.2⟩ else none

/-- The number zero. -/
def zero : Number := { raw := 0 }

/-- The number one. -/
def one : Number := { raw := 1000000 }

instance : Inhabited Number := ⟨zero⟩

/-- Numbers are equal as soon as their counts are. -/
@[ext] theorem ext_raw {a b : Number} (h : a.raw = b.raw) : a = b := by
  cases a; cases b; simp_all

/-- A count that is accepted is the count of the number it gives. -/
theorem ofRaw?_eq_some_iff {raw : Int} {n : Number} : ofRaw? raw = some n ↔ n.raw = raw := by
  unfold ofRaw?
  constructor
  · intro h
    split at h
    · cases h; rfl
    · cases h
  · rintro rfl
    simp [n.minRaw_le, n.le_maxRaw]

/-- A count is refused exactly when it is out of range. -/
theorem ofRaw?_eq_none_iff {raw : Int} : ofRaw? raw = none ↔ raw < minRaw ∨ maxRaw < raw := by
  unfold ofRaw?
  split <;> simp <;> omega

/-- Reading the count of a number back gives the number. -/
@[simp] theorem ofRaw?_raw (n : Number) : ofRaw? n.raw = some n := ofRaw?_eq_some_iff.2 rfl

instance : LT Number := ⟨fun a b => a.raw < b.raw⟩

instance : LE Number := ⟨fun a b => a.raw ≤ b.raw⟩

/-- Strict order is the order of the counts. -/
theorem lt_iff {a b : Number} : a < b ↔ a.raw < b.raw := Iff.rfl

/-- Weak order is the order of the counts. -/
theorem le_iff {a b : Number} : a ≤ b ↔ a.raw ≤ b.raw := Iff.rfl

instance (a b : Number) : Decidable (a < b) := inferInstanceAs (Decidable (a.raw < b.raw))

instance (a b : Number) : Decidable (a ≤ b) := inferInstanceAs (Decidable (a.raw ≤ b.raw))

instance : Ord Number := ⟨fun a b => compare a.raw b.raw⟩

/-- The smaller of two numbers, the left one of two equals. -/
def least (a b : Number) : Number := if b < a then b else a

/-- The larger of two numbers, the right one of two equals. -/
def greatest (a b : Number) : Number := if b < a then a else b

/-- The number with a given whole value, if it is in range. -/
def ofInt? (value : Int) : Option Number := ofRaw? (value * scale)

/-- The number of things counted by `n`; a count too large to represent reads as zero. -/
def ofCount (n : Nat) : Number := (ofInt? n).getD zero

/-- A smaller count can be represented if a greater one can. -/
theorem count_mono {m n : Nat} (hle : m ≤ n) (h : n * scale ≤ maxRaw) : m * scale ≤ maxRaw :=
  Int.le_trans (Int.mul_le_mul_of_nonneg_right (Int.ofNat_le.mpr hle) (by decide)) h

/-- A count that can be represented is the value of its number. -/
theorem raw_ofCount {n : Nat} (h : n * scale ≤ maxRaw) : (ofCount n).raw = n * scale := by
  have hleast : minRaw ≤ n * scale :=
    Int.le_trans (by decide) (Int.mul_nonneg (Int.natCast_nonneg n) (by decide))
  rw [ofCount, ofInt?, ofRaw?, dif_pos ⟨hleast, h⟩]
  rfl

/-- A count is never negative, not even one that cannot be represented. -/
theorem raw_ofCount_nonneg (n : Nat) : 0 ≤ (ofCount n).raw := by
  by_cases h : n * scale ≤ maxRaw
  · rw [raw_ofCount h]
    exact Int.mul_nonneg (Int.natCast_nonneg n) (by decide)
  · rw [ofCount, ofInt?, ofRaw?, dif_neg fun hrange => h hrange.2]
    exact Int.le_refl 0

/-- The whole part, truncated toward zero. -/
def whole (n : Number) : Int := n.raw.tdiv scale

/-- A number is zero when its count is. -/
def isZero (n : Number) : Bool := n.raw == 0

/-- A number is integral when it has no fraction. -/
def isIntegral (n : Number) : Bool := n.raw.tmod scale == 0

/-- The sum, if it is in range. -/
def add? (a b : Number) : Option Number := ofRaw? (a.raw + b.raw)

/-- The difference, if it is in range. -/
def sub? (a b : Number) : Option Number := ofRaw? (a.raw - b.raw)

/-- The product truncated toward zero, if it is in range. -/
def mul? (a b : Number) : Option Number := ofRaw? ((a.raw * b.raw).tdiv scale)

/-- The quotient truncated toward zero, unless the divisor is zero or the quotient out of range. -/
def div? (a b : Number) : Option Number :=
  if b.isZero then none else ofRaw? ((a.raw * scale).tdiv b.raw)

/-- The remainder of truncated division. A zero divisor has none, and neither has the least
number under minus one millionth, whose quotient is out of range. -/
def rem? (a b : Number) : Option Number :=
  if b.isZero || (a.raw == minRaw && b.raw == -1) then none else ofRaw? (a.raw.tmod b.raw)

/-- The negation, if it is in range. -/
def neg? (a : Number) : Option Number := ofRaw? (-a.raw)

/-- The magnitude, if it is in range. -/
def abs? (a : Number) : Option Number := if a < zero then a.neg? else some a

/-- The distance between two numbers in millionths. -/
def distance (a b : Number) : Nat := (a.raw - b.raw).natAbs

/-- The magnitude in millionths. -/
def magnitude (a : Number) : Nat := a.raw.natAbs

/-- The greatest integral number not above `n`, if it is in range. -/
def floor? (n : Number) : Option Number := ofRaw? (n.raw.fdiv scale * scale)

/-- The least integral number not below `n`, if it is in range. -/
def ceil? (n : Number) : Option Number :=
  let below := n.raw.fdiv scale
  ofRaw? ((if n.isIntegral then below else below + 1) * scale)

/-- The exponentiation loop: multiplies `square` into `result` once for each set bit of the
exponent, and squares only while bits remain. -/
def powerLoop (result square : Number) (exponent : Nat) : Option Number :=
  if exponent = 0 then some result
  else do
    let result ← if exponent % 2 = 1 then result.mul? square else some result
    if exponent / 2 = 0 then some result
    else powerLoop result (← square.mul? square) (exponent / 2)
termination_by exponent
decreasing_by omega

/-- A number to a whole power, each product truncated toward zero. -/
def power? (base : Number) (exponent : Nat) : Option Number := powerLoop one base exponent

end Number

end DecimalScript
