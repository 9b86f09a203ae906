import DecimalScript.Number.Squaring
import DecimalScript.Proofs.Arithmetic
import Mathlib.Data.Nat.Size
import Mathlib.Tactic.Positivity

/-!
# Powers

A turn of the squaring loop keeps the power that is to be found, up to what truncation takes off: it
only ever moves toward zero. Squares are made ahead of their use, but only while there is a digit of
the exponent that needs them, so one that is out of range shows that the power is. This is seen from
the size of the base: powers of a number of magnitude at least one do not shrink, and those of any
other never leave the range.
-/

namespace DecimalScript

namespace Number

/-! ### Toward zero -/

/-- A rational is another one times a factor from zero to one. -/
def Shrunk (y x : ℚ) : Prop := ∃ factor : ℚ, 0 ≤ factor ∧ factor ≤ 1 ∧ y = factor * x

namespace Shrunk

variable {x y z x' y' : ℚ}

theorem refl (x : ℚ) : Shrunk x x := ⟨1, zero_le_one, le_rfl, (one_mul x).symm⟩

theorem trans (h : Shrunk z y) (h' : Shrunk y x) : Shrunk z x := by
  obtain ⟨c, hc, hc', rfl⟩ := h
  obtain ⟨d, hd, hd', rfl⟩ := h'
  exact ⟨c * d, mul_nonneg hc hd, mul_le_one₀ hc' hd hd', (mul_assoc c d x).symm⟩

theorem mul (h : Shrunk y x) (h' : Shrunk y' x') : Shrunk (y * y') (x * x') := by
  obtain ⟨c, hc, hc', rfl⟩ := h
  obtain ⟨d, hd, hd', rfl⟩ := h'
  exact ⟨c * d, mul_nonneg hc hd, mul_le_one₀ hc' hd hd', mul_mul_mul_comm c x d x'⟩

theorem pow (h : Shrunk y x) (n : Nat) : Shrunk (y ^ n) (x ^ n) := by
  obtain ⟨c, hc, hc', rfl⟩ := h
  exact ⟨c ^ n, pow_nonneg hc n, pow_le_one₀ hc hc', mul_pow c x n⟩

theorem abs_le (h : Shrunk y x) : |y| ≤ |x| := by
  obtain ⟨c, hc, hc', rfl⟩ := h
  rw [abs_mul, abs_of_nonneg hc]
  exact mul_le_of_le_one_left (abs_nonneg x) hc'

/-- What lies between zero and a rational. -/
theorem of_between (h : (0 ≤ y ∧ y ≤ x) ∨ (x ≤ y ∧ y ≤ 0)) : Shrunk y x := by
  rcases eq_or_ne x 0 with rfl | hx
  · have hy : y = 0 := by
      rcases h with ⟨hlow, hhigh⟩ | ⟨hlow, hhigh⟩
      · exact le_antisymm hhigh hlow
      · exact le_antisymm hhigh hlow
    rw [hy]
    exact refl 0
  · refine ⟨y / x, ?_, ?_, (div_mul_cancel₀ y hx).symm⟩
    · rcases h with ⟨hlow, hhigh⟩ | ⟨hlow, hhigh⟩
      · exact div_nonneg hlow (hlow.trans hhigh)
      · exact div_nonneg_of_nonpos hhigh (hlow.trans hhigh)
    · rcases h with ⟨hlow, hhigh⟩ | ⟨hlow, hhigh⟩
      · exact div_le_one_of_le₀ hhigh (hlow.trans hhigh)
      · exact div_le_one_of_ge hlow (hlow.trans hhigh)

/-- A factor of at least one moves away from zero. -/
theorem of_factor {factor : ℚ} (h : 1 ≤ factor) (x : ℚ) : Shrunk x (x * factor) := by
  have hpos : 0 < factor := by linarith
  refine ⟨factor⁻¹, by positivity, inv_le_one_of_one_le₀ h, ?_⟩
  field_simp

/-- What is moved toward zero stays in range. -/
theorem fits (h : Shrunk y x) (hx : Fits x) : Fits y := by
  obtain ⟨c, hc, hc', rfl⟩ := h
  obtain ⟨hlow, hhigh⟩ := hx
  have hmin : (minRaw : ℚ) ≤ 0 := by norm_num [minRaw]
  have hmax : (0 : ℚ) ≤ maxRaw := by norm_num [maxRaw]
  constructor
  · calc (minRaw : ℚ) ≤ c * minRaw := by nlinarith
      _ ≤ c * (x * scale) := mul_le_mul_of_nonneg_left hlow hc
      _ = c * x * scale := (mul_assoc c x scale).symm
  · calc c * x * scale = c * (x * scale) := mul_assoc c x scale
      _ ≤ c * maxRaw := mul_le_mul_of_nonneg_left hhigh hc
      _ ≤ maxRaw := mul_le_of_le_one_left hmax hc'

end Shrunk

/-! ### Products -/

variable {a b n : Number} {x : ℚ}

/-- The values of numbers are in range. -/
theorem fits_value (n : Number) : Fits n.value := by
  have hscaled : n.value * scale = n.raw := div_mul_cancel₀ _ scale_pos.ne'
  unfold Fits
  rw [hscaled]
  exact ⟨by exact_mod_cast n.minRaw_le, by exact_mod_cast n.le_maxRaw⟩

/-- A truncated rational was moved toward zero. -/
theorem shrunk_towardZero (x : ℚ) : Shrunk (towardZero x) x := by
  unfold towardZero
  split
  · rename_i hx
    exact .of_between (.inl ⟨by exact_mod_cast Int.floor_nonneg.mpr hx, Int.floor_le x⟩)
  · rename_i hx
    have hneg : x ≤ 0 := (not_le.mp hx).le
    have hceil : ⌈x⌉ ≤ 0 := Int.ceil_le.mpr (by simpa using hneg)
    exact .of_between (.inr ⟨Int.le_ceil x, by exact_mod_cast hceil⟩)

/-- Cut to six places, a rational was moved toward zero. -/
theorem shrunk_cut (x : ℚ) : Shrunk ((towardZero (x * scale) : ℚ) / scale) x := by
  obtain ⟨c, hc, hc', hcut⟩ := shrunk_towardZero (x * scale)
  refine ⟨c, hc, hc', ?_⟩
  have hscale := scale_pos.ne'
  rw [hcut]
  field_simp

theorem shrunk_of_ofRational? (h : ofRational? x = some n) : Shrunk n.value x := by
  have hraw : n.raw = towardZero (x * scale) := ofRaw?_eq_some_iff.mp h
  rw [value, hraw]
  exact shrunk_cut x

theorem not_fits_of_ofRational? (h : ofRational? x = none) : ¬Fits x := by
  intro hx
  have hcut := (shrunk_cut x).fits hx
  unfold Fits at hcut
  rw [div_mul_cancel₀ _ scale_pos.ne'] at hcut
  have hlow : minRaw ≤ towardZero (x * scale) := by exact_mod_cast hcut.1
  have hhigh : towardZero (x * scale) ≤ maxRaw := by exact_mod_cast hcut.2
  rcases ofRaw?_eq_none_iff.mp h with hout | hout
  · omega
  · omega

/-- A product that has a result was moved toward zero. -/
theorem shrunk_mul? (h : a.mul? b = some n) : Shrunk n.value (a.value * b.value) :=
  shrunk_of_ofRational? ((mul?_eq a b).symm.trans h)

/-- A product without a result is out of range. -/
theorem not_fits_of_mul? (h : a.mul? b = none) : ¬Fits (a.value * b.value) :=
  not_fits_of_ofRational? ((mul?_eq a b).symm.trans h)

/-- The range is not the same on both sides of zero, but no square lies between its ends: where one
is out of range, so is its negation. -/
theorem not_fits_neg_of_mul? (h : a.mul? a = none) : ¬Fits (-(a.value * a.value)) := by
  have hout : 9223372036854775808 * 1000000 ≤ a.raw * a.raw := by
    have hquotient := ofRaw?_eq_none_iff.mp h
    rw [Int.tdiv_eq_ediv_of_nonneg (mul_self_nonneg a.raw)] at hquotient
    have hnonneg := mul_self_nonneg a.raw
    unfold minRaw maxRaw scale at hquotient
    omega
  have hsquare : 9223372036854775808 * 1000000 < a.raw * a.raw := by
    rw [← Int.natAbs_mul_self] at hout ⊢
    have hroot : 3037000499976 < a.raw.natAbs := Nat.mul_self_lt_mul_self_iff.mp (by omega)
    have hmore := Nat.mul_self_le_mul_self (show 3037000499977 ≤ a.raw.natAbs from hroot)
    omega
  have hcast : (9223372036854775808 * 1000000 : ℚ) < a.raw * a.raw := by exact_mod_cast hsquare
  rintro ⟨hlow, -⟩
  rw [value_eq, scale_cast] at hlow
  unfold minRaw at hlow
  push_cast at hlow
  linarith

theorem isIntegral_iff : n.isIntegral = true ↔ ∃ k : Int, n.value = k := by
  have hscale := scale_pos.ne'
  unfold isIntegral
  rw [beq_iff_eq, ← Int.dvd_iff_tmod_eq_zero]
  constructor
  · rintro ⟨k, hk⟩
    refine ⟨k, ?_⟩
    rw [value, hk]
    push_cast
    field_simp
  · rintro ⟨k, hk⟩
    refine ⟨k, ?_⟩
    have hraw : (n.raw : ℚ) = scale * k := by
      rw [← hk, value]
      field_simp
    exact_mod_cast hraw

/-- A product of integral numbers is exact. -/
theorem mul?_of_isIntegral (ha : a.isIntegral = true) (hb : b.isIntegral = true)
    (h : a.mul? b = some n) : n.value = a.value * b.value ∧ n.isIntegral = true := by
  obtain ⟨k, hk⟩ := isIntegral_iff.mp ha
  obtain ⟨l, hl⟩ := isIntegral_iff.mp hb
  have hvalue : n.value = (k * l : Int) := by
    have hraw : n.raw = towardZero (a.value * b.value * scale) :=
      ofRaw?_eq_some_iff.mp ((mul?_eq a b).symm.trans h)
    have hexact : a.value * b.value * scale = (k * l * scale : Int) := by
      rw [hk, hl]
      push_cast
      rfl
    rw [hexact, towardZero_intCast] at hraw
    rw [value, hraw, Int.cast_mul, mul_div_cancel_right₀ _ scale_pos.ne']
  refine ⟨?_, isIntegral_iff.mpr ⟨k * l, hvalue⟩⟩
  rw [hvalue, hk, hl, Int.cast_mul]

/-- A number stands for no other rational than its own. -/
theorem value_injective : Function.Injective value := by
  intro a b h
  refine ext_raw ?_
  have hraw : (a.raw : ℚ) = b.raw := (div_left_inj' scale_pos.ne').mp h
  exact_mod_cast hraw

theorem one_value : one.value = 1 := by norm_num [value, one, scale]

/-- Truncation does not move a rational past an integer on its way to zero. -/
theorem le_abs_towardZero {k : Int} (h : (k : ℚ) ≤ |x|) : k ≤ |towardZero x| := by
  unfold towardZero
  split
  · rename_i hx
    rw [abs_of_nonneg hx] at h
    exact (Int.le_floor.mpr h).trans (le_abs_self _)
  · rename_i hx
    rw [abs_of_neg (not_le.mp hx)] at h
    have hceil : ⌈x⌉ ≤ -k := Int.ceil_le.mpr (by push_cast; linarith)
    exact (le_neg_of_le_neg hceil).trans (neg_le_abs _)

/-- A product of magnitude at least one keeps that when it is truncated. -/
theorem one_le_abs_of_mul? (hx : 1 ≤ |a.value * b.value|) (h : a.mul? b = some n) :
    1 ≤ |n.value| := by
  have hraw : n.raw = towardZero (a.value * b.value * scale) :=
    ofRaw?_eq_some_iff.mp ((mul?_eq a b).symm.trans h)
  have hscaled : ((1000000 : Int) : ℚ) ≤ |a.value * b.value * scale| := by
    rw [abs_mul, abs_of_pos scale_pos, scale_cast]
    push_cast
    linarith
  have hcut : (1000000 : ℚ) ≤ |(n.raw : ℚ)| := by exact_mod_cast hraw ▸ le_abs_towardZero hscaled
  rw [value_eq, abs_div]
  norm_num
  linarith

/-! ### Turns -/

namespace Squaring

variable {loop next : Squaring} {result square answer : Number}

/-- The power to be found, with what this turn takes up set apart. -/
theorem target_eq (loop : Squaring) :
    loop.target = loop.result.value * loop.square.value ^ (loop.exponent % 2) *
      (loop.square.value * loop.square.value) ^ (loop.exponent / 2) := by
  have hsplit : loop.exponent = loop.exponent % 2 + 2 * (loop.exponent / 2) := by omega
  unfold target
  rw [mul_assoc, ← pow_two, ← pow_mul, ← pow_add, ← hsplit]

theorem turn_eq_some_iff : loop.turn = some next ↔ ∃ result square, loop.product? = some result ∧
    loop.square? = some square ∧ next = ⟨result, square, loop.exponent / 2⟩ := by
  unfold turn
  cases loop.product? with
  | none => simp
  | some result =>
    cases loop.square? with
    | none => simp
    | some square => simp [eq_comm]

theorem turn_eq_none_iff : loop.turn = none ↔ loop.product? = none ∨ loop.square? = none := by
  unfold turn
  cases loop.product? with
  | none => simp
  | some result =>
    cases loop.square? with
    | none => simp
    | some square => simp

theorem shrunk_product? (h : loop.product? = some result) :
    Shrunk result.value (loop.result.value * loop.square.value ^ (loop.exponent % 2)) := by
  unfold product? at h
  split at h
  · rename_i hodd
    rw [hodd, pow_one]
    exact shrunk_mul? h
  · rename_i heven
    cases h
    rw [show loop.exponent % 2 = 0 by omega, pow_zero, mul_one]
    exact .refl _

theorem shrunk_square? (h : loop.square? = some square) :
    Shrunk (square.value ^ (loop.exponent / 2))
      ((loop.square.value * loop.square.value) ^ (loop.exponent / 2)) := by
  unfold square? at h
  split at h
  · exact (shrunk_mul? h).pow _
  · rename_i hlast
    rw [show loop.exponent / 2 = 0 by omega, pow_zero, pow_zero]
    exact .refl 1

/-- A turn moves the power toward zero, if at all. -/
theorem shrunk_turn (h : loop.turn = some next) : Shrunk next.target loop.target := by
  obtain ⟨result, square, hresult, hsquare, rfl⟩ := turn_eq_some_iff.mp h
  rw [loop.target_eq]
  exact (shrunk_product? hresult).mul (shrunk_square? hsquare)

/-- Result and square are of magnitude at least one. -/
def Large (loop : Squaring) : Prop := 1 ≤ |loop.result.value| ∧ 1 ≤ |loop.square.value|

/-- Result and square are of magnitude at most one. -/
def Small (loop : Squaring) : Prop := |loop.result.value| ≤ 1 ∧ |loop.square.value| ≤ 1

theorem Large.turn (hlarge : loop.Large) (h : loop.turn = some next) : next.Large := by
  obtain ⟨result, square, hresult, hsquare, rfl⟩ := turn_eq_some_iff.mp h
  obtain ⟨hr, hs⟩ := hlarge
  constructor
  · unfold product? at hresult
    split at hresult
    · refine one_le_abs_of_mul? ?_ hresult
      rw [abs_mul]
      exact one_le_mul_of_one_le_of_one_le hr hs
    · cases hresult
      exact hr
  · unfold square? at hsquare
    split at hsquare
    · refine one_le_abs_of_mul? ?_ hsquare
      rw [abs_mul]
      exact one_le_mul_of_one_le_of_one_le hs hs
    · cases hsquare
      exact hs

/-- A product of magnitude at most one is never refused, and keeps that. -/
theorem exists_mul?_of_small {a b : Number} (ha : |a.value| ≤ 1) (hb : |b.value| ≤ 1) :
    ∃ n, a.mul? b = some n ∧ |n.value| ≤ 1 := by
  have hproduct : |a.value * b.value| ≤ 1 := by
    rw [abs_mul]
    exact mul_le_one₀ ha (abs_nonneg _) hb
  cases h : a.mul? b with
  | none =>
    refine absurd ?_ (not_fits_of_mul? h)
    obtain ⟨hlow, hhigh⟩ := abs_le.mp hproduct
    unfold Fits
    rw [scale_cast]
    norm_num [minRaw, maxRaw]
    constructor
    · linarith
    · linarith
  | some n => exact ⟨n, rfl, (shrunk_mul? h).abs_le.trans hproduct⟩

/-- Where nothing is greater than one, a turn is never refused. -/
theorem Small.exists_turn (h : loop.Small) : ∃ next, loop.turn = some next ∧ next.Small := by
  obtain ⟨hr, hs⟩ := h
  obtain ⟨product, hproduct, hp⟩ := exists_mul?_of_small hr hs
  obtain ⟨square, hsquare, hq⟩ := exists_mul?_of_small hs hs
  have hresult : ∃ result, loop.product? = some result ∧ |result.value| ≤ 1 := by
    unfold product?
    split
    · exact ⟨product, hproduct, hp⟩
    · exact ⟨loop.result, rfl, hr⟩
  have hnext : ∃ square, loop.square? = some square ∧ |square.value| ≤ 1 := by
    unfold square?
    split
    · exact ⟨square, hsquare, hq⟩
    · exact ⟨loop.square, rfl, hs⟩
  obtain ⟨result, hresult, hr⟩ := hresult
  obtain ⟨square, hsquare, hs⟩ := hnext
  exact ⟨_, turn_eq_some_iff.mpr ⟨result, square, hresult, hsquare, rfl⟩, hr, hs⟩

/-- Where nothing is smaller than one, a turn is refused only if the power is out of range: a
refused product is part of the power, and what else there is of it is a product of squares. A
refused square is part of it too, but what else there is may be negative. -/
theorem not_fits_of_turn (hlarge : loop.Large) (h : loop.turn = none) : ¬Fits loop.target := by
  obtain ⟨hr, hs⟩ := hlarge
  have hsquares : 1 ≤ loop.square.value * loop.square.value := by
    rw [← abs_mul_abs_self]
    exact one_le_mul_of_one_le_of_one_le hs hs
  rcases turn_eq_none_iff.mp h with hproduct | hsquare
  · unfold product? at hproduct
    split at hproduct
    · rename_i hodd
      intro hfits
      rw [loop.target_eq, hodd, pow_one] at hfits
      exact not_fits_of_mul? hproduct ((Shrunk.of_factor (one_le_pow₀ hsquares) _).fits hfits)
    · cases hproduct
  · unfold square? at hsquare
    split at hsquare
    · rename_i hmore
      obtain ⟨rest, hrest⟩ := Nat.exists_eq_add_of_le' (show 1 ≤ loop.exponent / 2 from hmore)
      let others := loop.result.value * loop.square.value ^ (loop.exponent % 2) *
        (loop.square.value * loop.square.value) ^ rest
      have htarget : loop.target = loop.square.value * loop.square.value * others := by
        rw [loop.target_eq, hrest, pow_succ]
        ring
      have hothers : 1 ≤ |others| := by
        simp only [others, abs_mul, abs_pow]
        have hpow := one_le_pow₀ (n := loop.exponent % 2) hs
        have hpows : 1 ≤ (|loop.square.value| * |loop.square.value|) ^ rest :=
          one_le_pow₀ (one_le_mul_of_one_le_of_one_le hs hs)
        exact one_le_mul_of_one_le_of_one_le (one_le_mul_of_one_le_of_one_le hr hpow) hpows
      intro hfits
      rw [htarget] at hfits
      rcases le_abs'.mp hothers with hneg | hpos
      · rw [← neg_mul_neg] at hfits
        exact not_fits_neg_of_mul? hsquare ((Shrunk.of_factor (by linarith) _).fits hfits)
      · exact not_fits_of_mul? hsquare ((Shrunk.of_factor hpos _).fits hfits)
    · cases hsquare

/-- A turn of integral numbers keeps the power. -/
theorem target_turn (hr : loop.result.isIntegral = true) (hs : loop.square.isIntegral = true)
    (h : loop.turn = some next) :
    next.target = loop.target ∧ next.result.isIntegral = true ∧ next.square.isIntegral = true := by
  obtain ⟨result, square, hresult, hsquare, rfl⟩ := turn_eq_some_iff.mp h
  have hproduct : result.value = loop.result.value * loop.square.value ^ (loop.exponent % 2) ∧
      result.isIntegral = true := by
    unfold product? at hresult
    split at hresult
    · rename_i hodd
      rw [hodd, pow_one]
      exact mul?_of_isIntegral hr hs hresult
    · rename_i heven
      cases hresult
      rw [show loop.exponent % 2 = 0 by omega, pow_zero, mul_one]
      exact ⟨rfl, hr⟩
  have hpower : square.value ^ (loop.exponent / 2) =
      (loop.square.value * loop.square.value) ^ (loop.exponent / 2) ∧ square.isIntegral = true := by
    unfold square? at hsquare
    split at hsquare
    · obtain ⟨hvalue, hintegral⟩ := mul?_of_isIntegral hs hs hsquare
      exact ⟨by rw [hvalue], hintegral⟩
    · rename_i hlast
      cases hsquare
      rw [show loop.exponent / 2 = 0 by omega, pow_zero, pow_zero]
      exact ⟨rfl, hs⟩
  refine ⟨?_, hproduct.2, hpower.2⟩
  rw [loop.target_eq, ← hproduct.1, ← hpower.1]
  rfl

/-! ### The whole loop -/

variable {turns : Nat}

/-- What the loop gives was moved toward zero from the power. -/
theorem Ends.shrunk (h : Ends loop turns (some answer)) : Shrunk answer.value loop.target := by
  generalize hsome : some answer = given at h
  induction h with
  | ended hexponent =>
    cases hsome
    rw [target, hexponent, pow_zero, mul_one]
    exact .refl _
  | refused => cases hsome
  | turn _ hturn _ ih => exact (ih hsome).trans (shrunk_turn hturn)

/-- For integral numbers it is the power. -/
theorem Ends.exact (h : Ends loop turns (some answer)) (hr : loop.result.isIntegral = true)
    (hs : loop.square.isIntegral = true) : answer.value = loop.target := by
  generalize hsome : some answer = given at h
  induction h with
  | ended hexponent =>
    cases hsome
    rw [target, hexponent, pow_zero, mul_one]
  | refused => cases hsome
  | turn _ hturn _ ih =>
    obtain ⟨htarget, hr, hs⟩ := target_turn hr hs hturn
    rw [ih hr hs hsome, htarget]

/-- Where nothing is smaller than one, it gives nothing only if the power is out of range. -/
theorem Ends.not_fits (h : Ends loop turns none) (hlarge : loop.Large) : ¬Fits loop.target := by
  generalize hnone : (none : Option Number) = given at h
  induction h with
  | ended => cases hnone
  | refused _ hturn => exact not_fits_of_turn hlarge hturn
  | turn _ hturn _ ih =>
    intro hfits
    exact ih (hlarge.turn hturn) hnone ((shrunk_turn hturn).fits hfits)

/-- Where nothing is greater than one, it gives something. -/
theorem Ends.ne_none {given : Option Number} (h : Ends loop turns given) (hsmall : loop.Small) :
    given ≠ none := by
  induction h with
  | ended => exact Option.some_ne_none _
  | refused _ hturn =>
    obtain ⟨next, hnext, -⟩ := hsmall.exists_turn
    rw [hturn] at hnext
    cases hnext
  | turn _ hturn _ ih =>
    obtain ⟨next, hnext, hsmall⟩ := hsmall.exists_turn
    rw [hturn] at hnext
    cases hnext
    exact ih hsmall

theorem powerLoop_zero (result square : Number) : powerLoop result square 0 = some result := by
  rw [powerLoop, if_pos rfl]

/-- A turn of the loop. -/
theorem powerLoop_turn {result square : Number} {exponent : Nat} (h : exponent ≠ 0) :
    powerLoop result square exponent =
      (if exponent % 2 = 1 then result.mul? square else some result).bind fun product =>
        if exponent / 2 = 0 then some product
        else (square.mul? square).bind fun square => powerLoop product square (exponent / 2) := by
  rw [powerLoop, if_neg h]
  by_cases hodd : exponent % 2 = 1
  · simp only [if_pos hodd]
    rfl
  · simp only [if_neg hodd]
    rfl

/-- A loop that has digits left takes a turn. -/
theorem powerLoop_of_pos (h : 0 < loop.exponent) :
    powerLoop loop.result loop.square loop.exponent =
      loop.turn.bind fun next => powerLoop next.result next.square next.exponent := by
  have hloop : powerLoop loop.result loop.square loop.exponent = loop.product?.bind fun result =>
      if loop.exponent / 2 = 0 then some result
      else (loop.square.mul? loop.square).bind fun square =>
        powerLoop result square (loop.exponent / 2) := powerLoop_turn h.ne'
  rw [hloop, turn]
  cases loop.product? with
  | none => rfl
  | some result =>
    unfold square?
    by_cases hlast : loop.exponent / 2 = 0
    · simp only [Option.bind_some, hlast, if_true, if_neg (Nat.lt_irrefl 0)]
      exact (powerLoop_zero result loop.square).symm
    · simp only [Option.bind_some, if_neg hlast, if_pos (Nat.pos_of_ne_zero hlast)]
      cases loop.square.mul? loop.square with
      | none => rfl
      | some square => rfl

/-- A loop without digits left is over. -/
theorem ends_of_zero (h : loop.exponent = 0) :
    Ends loop 0 (powerLoop loop.result loop.square loop.exponent) := by
  rw [h, powerLoop_zero]
  exact .ended h

/-- The loop ends with the power that is computed. It takes at most as many turns as the exponent
has digits, by induction on their number, since each turn takes one off. -/
theorem ends_powerLoop {digits : Nat} (h : loop.exponent < 2 ^ digits) :
    ∃ turns, turns ≤ digits ∧
      Ends loop turns (powerLoop loop.result loop.square loop.exponent) := by
  induction digits generalizing loop with
  | zero => exact ⟨0, le_rfl, ends_of_zero (by simpa using h)⟩
  | succ digits ih =>
    rcases Nat.eq_zero_or_pos loop.exponent with hzero | hpos
    · exact ⟨0, Nat.zero_le _, ends_of_zero hzero⟩
    · rw [powerLoop_of_pos hpos]
      cases hturn : loop.turn with
      | none => exact ⟨1, by omega, .refused hpos hturn⟩
      | some next =>
        have hnext : next.exponent < 2 ^ digits := by
          obtain ⟨result, square, -, -, rfl⟩ := turn_eq_some_iff.mp hturn
          rw [pow_succ] at h
          exact Nat.div_lt_of_lt_mul (by omega)
        obtain ⟨turns, hturns, hends⟩ := ih hnext
        exact ⟨turns + 1, by omega, .turn hpos hturn hends⟩

end Squaring

open Squaring

/-- An integral number to a whole power is the exact power, if that can be represented, and else
nothing. Of any number, a power is refused only if the exact one is out of range, and else it does
not exceed the exact one in magnitude. The squaring loop ends with it, after at most one turn for
each binary digit of the exponent. -/
theorem power_exact_or_out_of_range (base : Number) (exponent : Nat) :
    (base.isIntegral = true →
      ∀ n : Number, base.power? exponent = some n ↔ n.value = base.value ^ exponent) ∧
    (base.power? exponent = none → ¬Fits (base.value ^ exponent)) ∧
    (∀ n, base.power? exponent = some n → |n.value| ≤ |base.value ^ exponent|) ∧
    ∃ turns, turns ≤ exponent.size ∧
      Squaring.Ends ⟨one, base, exponent⟩ turns (base.power? exponent) := by
  obtain ⟨turns, hturns, hends⟩ : ∃ turns, turns ≤ exponent.size ∧
      Squaring.Ends ⟨one, base, exponent⟩ turns (base.power? exponent) :=
    ends_powerLoop (Nat.lt_size_self exponent)
  have htarget : Squaring.target ⟨one, base, exponent⟩ = base.value ^ exponent := by
    rw [Squaring.target, one_value, one_mul]
  have hrefused : base.power? exponent = none → ¬Fits (base.value ^ exponent) := by
    intro hnone
    rw [hnone] at hends
    have hone : |one.value| = 1 := by rw [one_value, abs_one]
    rw [← htarget]
    rcases le_total 1 |base.value| with hlarge | hsmall
    · exact hends.not_fits ⟨hone.ge, hlarge⟩
    · exact absurd rfl (hends.ne_none ⟨hone.le, hsmall⟩)
  have hexact : base.isIntegral = true → ∀ n, base.power? exponent = some n →
      n.value = base.value ^ exponent := by
    intro hintegral n hn
    rw [hn] at hends
    rw [← htarget]
    exact hends.exact rfl hintegral
  refine ⟨fun hintegral n => ⟨hexact hintegral n, fun hvalue => ?_⟩, hrefused, fun n hn => ?_,
    turns, hturns, hends⟩
  · cases hpower : base.power? exponent with
    | none => exact absurd (hvalue ▸ fits_value n) (hrefused hpower)
    | some m =>
      have hsame := hexact hintegral m hpower
      rw [value_injective (hsame.trans hvalue.symm)]
  · rw [hn] at hends
    rw [← htarget]
    exact hends.shrunk.abs_le

/-- The greatest power of two that is a number, and the one after it. -/
theorem powers_of_two_in_range :
    let two : Number := { raw := 2000000 }
    let greatest : Number := { raw := 8796093022208000000 }
    two.isIntegral = true ∧ two.power? 43 = some greatest ∧ two.power? 44 = none := by
  intro two greatest
  have htwo : two.value = 2 := by norm_num [two, value, scale]
  have hexact := (power_exact_or_out_of_range two 43).1 rfl greatest
  refine ⟨rfl, hexact.mpr ?_, ?_⟩
  · rw [htwo]
    norm_num [greatest, value, scale]
  · cases hpower : two.power? 44 with
    | none => rfl
    | some n =>
      obtain ⟨-, hhigh⟩ := fits_value n
      rw [((power_exact_or_out_of_range two 44).1 rfl n).mp hpower, htwo, scale_cast] at hhigh
      norm_num [maxRaw] at hhigh

end Number

end DecimalScript
