import DecimalScript.Proofs.Powers

/-!
# Floor and ceiling

Next to every number are two whole numbers, and neither end of the range is one. So the floor of a
number close to the least one is out of range, and so is the ceiling of one close to the greatest.
Wherever they are in range they are found, by steps of which none overflows.
-/

namespace DecimalScript

namespace Number

variable {k : Int} {m n : Number}

/-! ### Whole numbers -/

theorem ofInt?_eq_some_iff : ofInt? k = some m ↔ m.value = k := by
  rw [ofInt?, ofRaw?_eq_some_iff, value, div_eq_iff scale_pos.ne']
  norm_cast

theorem ofInt?_eq_none_iff : ofInt? k = none ↔ ¬Fits k := by
  rw [ofInt?, ofRaw?_eq_none_iff, ← not_le, ← not_le, ← not_and_or]
  unfold Fits
  norm_cast

theorem value_le_iff : m.value ≤ n.value ↔ m ≤ n := by
  rw [value, value, div_le_div_iff_of_pos_right scale_pos, Int.cast_le]
  exact Iff.rfl

/-- The floor of a number is the Euclidean quotient of its count. -/
theorem floor_value (n : Number) : ⌊n.value⌋ = n.raw / scale :=
  Rat.floor_intCast_div_natCast n.raw 1000000

theorem floor?_eq (n : Number) : n.floor? = ofInt? ⌊n.value⌋ := by
  rw [floor_value, floor?, Int.fdiv_eq_ediv_of_nonneg n.raw (by decide)]
  rfl

theorem isIntegral_iff_floor : n.isIntegral = true ↔ n.value = ⌊n.value⌋ := by
  rw [isIntegral_iff]
  constructor
  · rintro ⟨k, hk⟩
    rw [hk, Int.floor_intCast]
  · exact fun h => ⟨_, h⟩

/-- The ceiling of a number is its floor, or one more where the number has a fraction. -/
theorem ceil_value (n : Number) :
    ⌈n.value⌉ = if n.isIntegral then ⌊n.value⌋ else ⌊n.value⌋ + 1 := by
  split
  · rename_i hintegral
    conv_lhs => rw [isIntegral_iff_floor.mp hintegral]
    exact Int.ceil_intCast _
  · rename_i hfraction
    have hne : (⌊n.value⌋ : ℚ) ≠ n.value := fun h => hfraction (isIntegral_iff_floor.mpr h.symm)
    have hlow := lt_of_le_of_ne (Int.floor_le n.value) hne
    have hhigh := Int.lt_floor_add_one n.value
    rw [Int.ceil_eq_iff]
    push_cast
    exact ⟨by linarith, hhigh.le⟩

theorem ceil?_eq (n : Number) : n.ceil? = ofInt? ⌈n.value⌉ := by
  rw [ceil_value, floor_value, ceil?, Int.fdiv_eq_ediv_of_nonneg n.raw (by decide)]
  rfl

/-! ### Steps -/

theorem long_holds_of_natAbs {x : Int} (h : x.natAbs ≤ 9223372036854775807) :
    Word.long.Holds x := by
  unfold Word.Holds Word.long minRaw maxRaw
  dsimp only
  omega

/-- The truncated quotient, corrected where the remainder is negative, is the Euclidean one. -/
theorem unitsSteps_eq (n : Number) : unitsSteps n = .ok (n.raw / scale) := by
  have hraw := natAbs_raw_le n
  have hsplit := Int.mul_tdiv_add_tmod n.raw 1000000
  have hbelow := Int.tmod_lt_of_pos n.raw (show (0 : Int) < 1000000 by decide)
  have habove := Int.lt_tmod_of_pos n.raw (show (0 : Int) < 1000000 by decide)
  unfold unitsSteps scale
  rw [Word.plain_bind (long_holds_of_natAbs (by omega))]
  split
  · rw [Word.plain, if_pos (long_holds_of_natAbs (by omega))]
    exact congrArg Except.ok (by omega)
  · exact congrArg Except.ok (by omega)

/-- No step of a floor overflows. -/
theorem floorSteps_eq (n : Number) : floorSteps n = .ok n.floor? := by
  rw [floor?_eq, floor_value, floorSteps, unitsSteps_eq]
  rfl

/-- No step of a ceiling overflows, as there is room for one more than any quotient. -/
theorem ceilSteps_eq (n : Number) : ceilSteps n = .ok n.ceil? := by
  have hraw := natAbs_raw_le n
  rw [ceil?_eq, ceil_value, floor_value, ceilSteps, unitsSteps_eq]
  cases n.isIntegral with
  | true => rfl
  | false =>
    have hroom : Word.long.Holds (n.raw / scale + 1) :=
      long_holds_of_natAbs (by unfold scale; omega)
    exact Word.plain_bind hroom fun units => .ok (ofRaw? (units * scale))

/-! ### Nearest integral numbers -/

/-- The integral numbers up to a number. -/
def integralUpTo (n : Number) : Set Number := {k | k.isIntegral = true ∧ k ≤ n}

/-- The integral numbers from a number on. -/
def integralFrom (n : Number) : Set Number := {k | k.isIntegral = true ∧ n ≤ k}

theorem eq_of_le_of_le (h : m ≤ n) (h' : n ≤ m) : m = n := ext_raw (Int.le_antisymm h h')

/-- A number whose value is the floor of another one is the greatest integral number up to it. -/
theorem isGreatest_of_value (h : m.value = ⌊n.value⌋) : IsGreatest (integralUpTo n) m := by
  refine ⟨⟨isIntegral_iff.mpr ⟨_, h⟩, value_le_iff.mp (h ▸ Int.floor_le n.value)⟩, ?_⟩
  rintro k ⟨hintegral, hk⟩
  obtain ⟨z, hz⟩ := isIntegral_iff.mp hintegral
  have hbelow : (z : ℚ) ≤ n.value := hz ▸ value_le_iff.mpr hk
  rw [← value_le_iff, hz, h]
  exact_mod_cast Int.le_floor.mpr hbelow

/-- A number whose value is the ceiling of another one is the least integral number from it on. -/
theorem isLeast_of_value (h : m.value = ⌈n.value⌉) : IsLeast (integralFrom n) m := by
  refine ⟨⟨isIntegral_iff.mpr ⟨_, h⟩, value_le_iff.mp (h ▸ Int.le_ceil n.value)⟩, ?_⟩
  rintro k ⟨hintegral, hk⟩
  obtain ⟨z, hz⟩ := isIntegral_iff.mp hintegral
  have habove : n.value ≤ (z : ℚ) := hz ▸ value_le_iff.mpr hk
  rw [← value_le_iff, hz, h]
  exact_mod_cast Int.ceil_le.mpr habove

/-- A whole number between two numbers can be represented. -/
theorem fits_of_between {l u : Number} (hl : l.value ≤ k) (hu : (k : ℚ) ≤ u.value) : Fits k := by
  have hscale := scale_pos
  obtain ⟨hlow, -⟩ := fits_value l
  obtain ⟨-, hhigh⟩ := fits_value u
  exact ⟨hlow.trans (mul_le_mul_of_nonneg_right hl hscale.le),
    (mul_le_mul_of_nonneg_right hu hscale.le).trans hhigh⟩

/-- The floor is found exactly where it is a number. -/
theorem floor?_eq_some_iff : n.floor? = some m ↔ IsGreatest (integralUpTo n) m := by
  constructor
  · exact fun h => isGreatest_of_value (ofInt?_eq_some_iff.mp (floor?_eq n ▸ h))
  · rintro ⟨⟨hintegral, hm⟩, hgreatest⟩
    obtain ⟨z, hz⟩ := isIntegral_iff.mp hintegral
    -- The number lies below the floor, which lies below `n`, so the floor is in range.
    have hbelow : m.value ≤ ⌊n.value⌋ := by
      rw [hz]
      exact_mod_cast Int.le_floor.mpr (hz ▸ value_le_iff.mpr hm)
    have hfits := fits_of_between hbelow (Int.floor_le n.value)
    cases hfloor : n.floor? with
    | none => exact absurd hfits (ofInt?_eq_none_iff.mp (floor?_eq n ▸ hfloor))
    | some found =>
      obtain ⟨hfound, hmost⟩ :=
        isGreatest_of_value (ofInt?_eq_some_iff.mp (floor?_eq n ▸ hfloor))
      rw [eq_of_le_of_le (hgreatest hfound) (hmost ⟨hintegral, hm⟩)]

/-- The ceiling is found exactly where it is a number. -/
theorem ceil?_eq_some_iff : n.ceil? = some m ↔ IsLeast (integralFrom n) m := by
  constructor
  · exact fun h => isLeast_of_value (ofInt?_eq_some_iff.mp (ceil?_eq n ▸ h))
  · rintro ⟨⟨hintegral, hm⟩, hleast⟩
    obtain ⟨z, hz⟩ := isIntegral_iff.mp hintegral
    have habove : (⌈n.value⌉ : ℚ) ≤ m.value := by
      rw [hz]
      exact_mod_cast Int.ceil_le.mpr (hz ▸ value_le_iff.mpr hm)
    have hfits := fits_of_between (Int.le_ceil n.value) habove
    cases hceil : n.ceil? with
    | none => exact absurd hfits (ofInt?_eq_none_iff.mp (ceil?_eq n ▸ hceil))
    | some found =>
      obtain ⟨hfound, hfew⟩ := isLeast_of_value (ofInt?_eq_some_iff.mp (ceil?_eq n ▸ hceil))
      rw [eq_of_le_of_le (hfew ⟨hintegral, hm⟩) (hleast hfound)]

/-! ### Mirrored -/

theorem neg?_value (h : n.neg? = some m) : m.value = -n.value := by
  have hraw : m.raw = -n.raw := ofRaw?_eq_some_iff.mp h
  rw [value, value, hraw, Int.cast_neg, neg_div]

/-- The ceiling is the floor of the negation, negated, where all three steps give a number. -/
theorem ceil?_of_mirrored {mirrored below : Number} (hmirrored : n.neg? = some mirrored)
    (hbelow : mirrored.floor? = some below) (h : below.neg? = some m) : n.ceil? = some m := by
  rw [ceil?_eq, ofInt?_eq_some_iff, neg?_value h,
    ofInt?_eq_some_iff.mp (floor?_eq mirrored ▸ hbelow), neg?_value hmirrored, Int.floor_neg,
    Int.cast_neg, neg_neg]

theorem isIntegral_iff_ceil : n.isIntegral = true ↔ n.value = ⌈n.value⌉ := by
  rw [isIntegral_iff]
  constructor
  · rintro ⟨k, hk⟩
    rw [hk, Int.ceil_intCast]
  · exact fun h => ⟨_, h⟩

/-- Floor and ceiling of every number: the greatest integral number up to it and the least one from
it on, where these can be represented, and else nothing. No step on the way overflows. The ceiling
is the floor of the negation, negated, wherever that is defined, and both leave exactly the integral
numbers as they are. -/
theorem floor_and_ceil_exact (n : Number) :
    (∀ m, n.floor? = some m ↔ IsGreatest (integralUpTo n) m) ∧
    (n.floor? = none ↔ ¬Fits ⌊n.value⌋) ∧
    (∀ m, n.ceil? = some m ↔ IsLeast (integralFrom n) m) ∧
    (n.ceil? = none ↔ ¬Fits ⌈n.value⌉) ∧
    floorSteps n = .ok n.floor? ∧ ceilSteps n = .ok n.ceil? ∧
    (∀ mirrored below m : Number, n.neg? = some mirrored → mirrored.floor? = some below →
      below.neg? = some m → n.ceil? = some m) ∧
    (n.floor? = some n ↔ n.isIntegral = true) ∧ (n.ceil? = some n ↔ n.isIntegral = true) := by
  refine ⟨fun m => floor?_eq_some_iff, ?_, fun m => ceil?_eq_some_iff, ?_, floorSteps_eq n,
    ceilSteps_eq n, fun mirrored below m => ceil?_of_mirrored, ?_, ?_⟩
  · rw [floor?_eq, ofInt?_eq_none_iff]
  · rw [ceil?_eq, ofInt?_eq_none_iff]
  · rw [floor?_eq, ofInt?_eq_some_iff, isIntegral_iff_floor]
  · rw [ceil?_eq, ofInt?_eq_some_iff, isIntegral_iff_ceil]

/-- The ceiling of a number below zero, from the floor of its negation. -/
theorem ceil_of_mirrored_floor :
    let n : Number := { raw := -1500000 }
    let mirrored : Number := { raw := 1500000 }
    n.neg? = some mirrored ∧ mirrored.floor? = some one ∧ one.neg? = some { raw := -1000000 } ∧
      n.ceil? = some { raw := -1000000 } := by
  intro n mirrored
  have hmirrored : n.neg? = some mirrored := by decide
  have hbelow : mirrored.floor? = some one := by decide
  have hresult : one.neg? = some { raw := -1000000 } := by decide
  obtain ⟨-, -, -, -, -, -, hceil, -⟩ := floor_and_ceil_exact n
  exact ⟨hmirrored, hbelow, hresult, hceil mirrored one _ hmirrored hbelow hresult⟩

/-- Both ends of the range lie between whole numbers of which only one can be represented. -/
example : ofRaw? minRaw >>= floor? = none ∧ ofRaw? maxRaw >>= ceil? = none ∧
    ofRaw? minRaw >>= ceil? = ofRaw? (-9223372036854000000) := by decide

end Number

end DecimalScript
