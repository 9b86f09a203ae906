import DecimalScript.Eval.Operators
import DecimalScript.Number.Rational
import DecimalScript.Number.Words
import Mathlib.Tactic.FieldSimp
import Mathlib.Tactic.Linarith

/-!
# Arithmetic is exact up to one truncation

Sums and differences of numbers are exact, and products and quotients are cut to six places toward
zero; what is out of range is refused. No step on the way overflows a machine word. A quotient that
is multiplied back is cut twice, both times toward zero, so it never passes the dividend, and stays
close to it.
-/

namespace DecimalScript

namespace Number

/-! ### Truncation toward zero -/

theorem towardZero_intCast (n : Int) : towardZero n = n := by
  unfold towardZero
  split
  · exact Int.floor_intCast n
  · exact Int.ceil_intCast n

theorem towardZero_neg (x : ℚ) : towardZero (-x) = -towardZero x := by
  unfold towardZero
  rcases lt_trichotomy x 0 with hneg | rfl | hpos
  · rw [if_pos (by linarith), if_neg (by linarith), Int.floor_neg]
  · simp
  · rw [if_neg (by linarith), if_pos hpos.le, Int.ceil_neg]

/-- Truncated division of natural numbers is the floor of their quotient. -/
theorem towardZero_natCast_div (a b : Nat) : towardZero ((a : ℚ) / b) = (a / b : Nat) := by
  have hfloor := Rat.floor_intCast_div_natCast a b
  rw [towardZero, if_pos (by positivity)]
  simpa using hfloor

/-- Truncated division of integers is the truncation of their quotient. -/
theorem towardZero_div (a b : Int) : towardZero ((a : ℚ) / b) = a.tdiv b := by
  obtain ⟨m, rfl | rfl⟩ := a.eq_nat_or_neg
  · obtain ⟨n, rfl | rfl⟩ := b.eq_nat_or_neg
    · simpa using towardZero_natCast_div m n
    · have h := towardZero_natCast_div m n
      rw [Int.cast_neg, div_neg, towardZero_neg, Int.tdiv_neg]
      simpa using h
  · obtain ⟨n, rfl | rfl⟩ := b.eq_nat_or_neg
    · have h := towardZero_natCast_div m n
      rw [Int.cast_neg, neg_div, towardZero_neg, Int.neg_tdiv]
      simpa using h
    · simpa using towardZero_natCast_div m n

/-! ### Exact results -/

theorem scale_cast : (scale : ℚ) = 1000000 := by norm_num [scale]

theorem scale_pos : (0 : ℚ) < scale := by rw [scale_cast]; norm_num

theorem isZero_iff {n : Number} : n.isZero = true ↔ n = zero := by
  rw [Number.ext_raw_iff]
  simp [isZero, zero]

variable (a b : Number)

/-- A sum is exact. -/
theorem add?_eq : a.add? b = ofRational? (a.value + b.value) := by
  have hsum : (a.value + b.value) * scale = (a.raw + b.raw : Int) := by
    have := scale_pos
    unfold value
    push_cast
    field_simp
  rw [ofRational?, hsum, towardZero_intCast, add?]

/-- A difference is exact. -/
theorem sub?_eq : a.sub? b = ofRational? (a.value - b.value) := by
  have hdifference : (a.value - b.value) * scale = (a.raw - b.raw : Int) := by
    have := scale_pos
    unfold value
    push_cast
    field_simp
  rw [ofRational?, hdifference, towardZero_intCast, sub?]

/-- A product is the exact one, truncated. -/
theorem mul?_eq : a.mul? b = ofRational? (a.value * b.value) := by
  have hproduct : a.value * b.value * scale = (a.raw * b.raw : Int) / (scale : Int) := by
    have := scale_pos
    unfold value
    push_cast
    field_simp
  rw [ofRational?, hproduct, towardZero_div, mul?]

/-- A quotient is the exact one, truncated. -/
theorem div?_eq {b : Number} (hb : b ≠ zero) : a.div? b = ofRational? (a.value / b.value) := by
  have hzero : b.isZero = false := Bool.eq_false_iff.mpr (mt isZero_iff.mp hb)
  have hraw : (b.raw : ℚ) ≠ 0 := by simpa [isZero] using hzero
  have hquotient : a.value / b.value * scale = (a.raw * scale : Int) / (b.raw : Int) := by
    have := scale_pos
    unfold value
    push_cast
    field_simp
  rw [ofRational?, hquotient, towardZero_div, div?, if_neg (by simp [hzero])]

/-! ### Words -/

/-- A count in a long word. -/
theorem natAbs_raw_le : a.raw.natAbs ≤ 9223372036854775808 := by
  have hlow := a.minRaw_le
  have hhigh := a.le_maxRaw
  unfold minRaw at hlow
  unfold maxRaw at hhigh
  omega

theorem wide_holds_of_natAbs {x : Int} (h : x.natAbs ≤ 85070591730234615865843651857942052864) :
    Word.wide.Holds x := by
  unfold Word.Holds Word.wide
  dsimp only
  omega

/-- A truncated quotient by a whole divisor is no larger than the dividend. -/
theorem wide_holds_tdiv {x : Int} (h : x.natAbs ≤ 85070591730234615865843651857942052864)
    (divisor : Int) : Word.wide.Holds (x.tdiv divisor) :=
  wide_holds_of_natAbs ((Int.natAbs_tdiv_le_natAbs x divisor).trans h)

/-- No step of a product overflows. -/
theorem mulSteps_eq : mulSteps a b = .ok (a.mul? b) := by
  have hproduct : (a.raw * b.raw).natAbs ≤ 85070591730234615865843651857942052864 := by
    rw [Int.natAbs_mul]
    exact Nat.mul_le_mul (natAbs_raw_le a) (natAbs_raw_le b)
  unfold mulSteps
  rw [Word.plain_bind (wide_holds_of_natAbs hproduct),
    Word.plain_bind (wide_holds_tdiv hproduct scale)]
  rfl

/-- No step of a quotient overflows. -/
theorem divSteps_eq : divSteps a b = .ok (a.div? b) := by
  have hscaled : (a.raw * scale).natAbs ≤ 85070591730234615865843651857942052864 := by
    have hraw := natAbs_raw_le a
    unfold scale
    omega
  unfold divSteps div?
  by_cases hzero : b.isZero = true
  · rw [if_pos hzero, if_pos hzero]
    rfl
  · rw [if_neg hzero, if_neg hzero, Word.plain_bind (wide_holds_of_natAbs hscaled),
      Word.plain_bind (wide_holds_tdiv hscaled b.raw)]
    rfl

/-! ### Remainders -/

theorem natAbs_tmod_le (x y : Int) : (x.tmod y).natAbs ≤ x.natAbs := by
  rw [Int.natAbs_tmod]
  exact Nat.mod_le _ _

theorem abs_tmod_lt (x : Int) {y : Int} (hy : y ≠ 0) : |x.tmod y| < |y| := by
  rw [Int.abs_eq_natAbs, Int.abs_eq_natAbs, Int.natAbs_tmod]
  exact_mod_cast Nat.mod_lt _ (Int.natAbs_pos.mpr hy)

theorem tmod_nonpos {x : Int} (y : Int) (hx : x ≤ 0) : x.tmod y ≤ 0 := by
  have hopposite := Int.tmod_nonneg y (Int.neg_nonneg_of_nonpos hx)
  rw [Int.neg_tmod] at hopposite
  omega

/-- A remainder of truncated division does not point against the dividend. -/
theorem mul_tmod_pos {x y : Int} (h : x.tmod y ≠ 0) : 0 < x * x.tmod y := by
  have hsize := natAbs_tmod_le x y
  rcases le_or_gt 0 x with hx | hx
  · have hrest := Int.tmod_nonneg y hx
    exact mul_pos (by omega) (by omega)
  · have hrest := tmod_nonpos y hx.le
    exact mul_pos_of_neg_of_neg hx (by omega)

variable {a b}

theorem raw_ne_zero (hb : b ≠ zero) : b.raw ≠ 0 := fun hzero => hb (Number.ext_raw hzero)

theorem value_eq (n : Number) : n.value = n.raw / 1000000 := by rw [value, scale_cast]

/-- The remainder of truncated division is the remainder of the rationals. -/
theorem isRemainder_of_raw {n : Number} (hb : b ≠ zero) (h : n.raw = a.raw.tmod b.raw) :
    IsRemainder a.value b.value n.value := by
  constructor
  · have hsplit : (a.raw : ℚ) = a.raw.tdiv b.raw * b.raw + n.raw := by
      rw [h]
      exact_mod_cast (Int.tdiv_mul_add_tmod a.raw b.raw).symm
    refine ⟨a.raw.tdiv b.raw, ?_⟩
    rw [value_eq, value_eq, value_eq, hsplit]
    ring
  · have hless : |n.raw| < |b.raw| := h ▸ abs_tmod_lt a.raw (raw_ne_zero hb)
    rw [value_eq, value_eq, abs_div, abs_div]
    exact div_lt_div_of_pos_right (by exact_mod_cast hless) (by norm_num)
  · by_cases hzero : n.raw = 0
    · left
      rw [value_eq, hzero]
      norm_num
    · right
      have hpos : 0 < a.raw * n.raw := by
        rw [h] at hzero ⊢
        exact mul_tmod_pos hzero
      have hcast : (0 : ℚ) < a.raw * n.raw := by exact_mod_cast hpos
      rw [value_eq, value_eq, div_mul_div_comm]
      positivity

/-- A remainder is refused only where the quotient is out of range. -/
theorem rem?_cases (hb : b ≠ zero) :
    (a.raw = minRaw ∧ b.raw = -1) ∧ a.rem? b = none ∨
      ¬(a.raw = minRaw ∧ b.raw = -1) ∧
        ∃ n, a.rem? b = some n ∧ IsRemainder a.value b.value n.value := by
  have hzero : b.isZero = false := Bool.eq_false_iff.mpr (mt isZero_iff.mp hb)
  by_cases hlast : a.raw = minRaw ∧ b.raw = -1
  · left
    exact ⟨hlast, by simp [rem?, hlast]⟩
  · right
    have hless := abs_tmod_lt a.raw (raw_ne_zero hb)
    have hsize := natAbs_raw_le b
    have hrange : minRaw ≤ a.raw.tmod b.raw ∧ a.raw.tmod b.raw ≤ maxRaw := by
      rw [Int.abs_eq_natAbs, Int.abs_eq_natAbs] at hless
      unfold minRaw maxRaw
      omega
    refine ⟨hlast, ⟨a.raw.tmod b.raw, hrange.1, hrange.2⟩, ?_, isRemainder_of_raw hb rfl⟩
    rw [rem?, if_neg (by simpa [hzero] using hlast)]
    exact dif_pos hrange

/-! ### Quotients multiplied back -/

/-- Between zero and a bound on either side of it. -/
def Within (x bound : Int) : Prop := (0 ≤ x ∧ x ≤ bound) ∨ (bound ≤ x ∧ x ≤ 0)

/-- A truncated quotient times the divisor does not pass the dividend. -/
theorem within_tdiv_mul (x y : Int) : Within (x.tdiv y * y) x := by
  have hsplit := Int.tdiv_mul_add_tmod x y
  have hsize := natAbs_tmod_le x y
  rcases le_total 0 x with hx | hx
  · have hrest := Int.tmod_nonneg y hx
    exact .inl (by omega)
  · have hrest := tmod_nonpos y hx
    exact .inr (by omega)

/-- What does not pass a multiple of a divisor does not pass the factor once it is divided. -/
theorem Within.tdiv {x y bound : Int} (hy : 0 < y) (h : Within x (bound * y)) :
    Within (x.tdiv y) bound := by
  rcases h with ⟨hlow, hhigh⟩ | ⟨hlow, hhigh⟩
  · left
    refine ⟨Int.tdiv_nonneg hlow hy.le, ?_⟩
    rw [Int.tdiv_eq_ediv_of_nonneg hlow]
    exact Int.ediv_le_of_le_mul hy hhigh
  · right
    have hopposite : 0 ≤ -x := by omega
    have hnonneg := Int.tdiv_nonneg hopposite hy.le
    have hle : (-x).tdiv y ≤ -bound := by
      rw [Int.tdiv_eq_ediv_of_nonneg hopposite]
      exact Int.ediv_le_of_le_mul hy (by rw [neg_mul]; omega)
    rw [Int.neg_tdiv] at hnonneg hle
    omega

/-- A scaled dividend that is divided, multiplied back and scaled down falls short by less than the
divisor and the scale, since each truncation leaves a remainder. -/
theorem abs_sub_back_lt (x : Int) {y scale : Int} (hy : y ≠ 0) (hscale : scale ≠ 0) :
    |(x - ((x * scale).tdiv y * y).tdiv scale) * scale| < |y| + |scale| := by
  have hfirst := Int.tdiv_mul_add_tmod (x * scale) y
  have hsecond := Int.tdiv_mul_add_tmod ((x * scale).tdiv y * y) scale
  have hsum : (x - ((x * scale).tdiv y * y).tdiv scale) * scale =
      (x * scale).tmod y + ((x * scale).tdiv y * y).tmod scale := by
    rw [sub_mul]
    omega
  rw [hsum]
  exact (abs_add_le _ _).trans_lt (add_lt_add (abs_tmod_lt _ hy) (abs_tmod_lt _ hscale))

/-- A quotient can be multiplied back. The product does not pass the dividend, and it falls short of
it by less than a millionth of the divisor and one unit of the last place. -/
theorem mul?_of_div? {q : Number} (h : a.div? b = some q) :
    ∃ p, q.mul? b = some p ∧ p.magnitude ≤ a.magnitude ∧
      |(a.raw - p.raw : ℚ)| < |(b.raw : ℚ)| / 1000000 + 1 := by
  have hb : b ≠ zero := by
    rintro rfl
    cases h
  have hq : q.raw = (a.raw * scale).tdiv b.raw := by
    rw [div?, if_neg (mt isZero_iff.mp hb)] at h
    exact ofRaw?_eq_some_iff.mp h
  have hscale : 0 < scale := by decide
  have hwithin : Within ((q.raw * b.raw).tdiv scale) a.raw := by
    rw [hq]
    exact (within_tdiv_mul _ _).tdiv hscale
  have hrange : minRaw ≤ (q.raw * b.raw).tdiv scale ∧ (q.raw * b.raw).tdiv scale ≤ maxRaw := by
    have hlow := a.minRaw_le
    have hhigh := a.le_maxRaw
    unfold Within at hwithin
    unfold minRaw maxRaw at *
    omega
  refine ⟨⟨(q.raw * b.raw).tdiv scale, hrange.1, hrange.2⟩, dif_pos hrange, ?_, ?_⟩
  · unfold Within at hwithin
    unfold magnitude
    dsimp only
    omega
  · have hshort := abs_sub_back_lt a.raw (raw_ne_zero hb) hscale.ne'
    rw [← hq, abs_mul, abs_of_pos hscale] at hshort
    have hcast : |(a.raw - ((q.raw * b.raw).tdiv scale : Int) : ℚ)| * 1000000 <
        |(b.raw : ℚ)| + 1000000 := by exact_mod_cast hshort
    linarith

end Number

open Number

/-- The operation on rationals that an arithmetic operator rounds. -/
def BinaryOp.rational? : BinaryOp → Option (ℚ → ℚ → ℚ)
  | .add => some (· + ·)
  | .subtract => some (· - ·)
  | .multiply => some (· * ·)
  | .divide => some (· / ·)
  | _ => none

namespace Value

variable {a b : Number}

/-- The number that an exact result is cut to, or a refusal. -/
def rounded (op : BinaryOp) (line : Nat) (exact : ℚ) : Except Fault Value :=
  match ofRational? exact with
  | some n => .ok (.number n)
  | none => .error (.overflow op.symbol line)

/-- Arithmetic on two numbers ends with the result of the operation, or is refused. -/
theorem arithmetic_number (op : BinaryOp) (line : Nat)
    (apply : Number → Number → Option Number) (a b : Number) :
    arithmetic op (.number a) (.number b) line apply =
      match apply a b with
      | some n => .ok (.number n)
      | none => .error (.overflow op.symbol line) := rfl

theorem applyBinary_divide (hb : b ≠ zero) (line : Nat) :
    applyBinary .divide (.number a) (.number b) line =
      arithmetic .divide (.number a) (.number b) line div? :=
  if_neg (mt isZero_iff.mp hb)

theorem applyBinary_modulo (hb : b ≠ zero) (line : Nat) :
    applyBinary .modulo (.number a) (.number b) line =
      arithmetic .modulo (.number a) (.number b) line rem? :=
  if_neg (mt isZero_iff.mp hb)

/-- Every arithmetic operator but the remainder rounds the exact result. -/
theorem applyBinary_eq_rounded {op : BinaryOp} {operation : ℚ → ℚ → ℚ} (line : Nat)
    (hop : op.rational? = some operation) (hb : op = .divide → b ≠ zero) :
    applyBinary op (.number a) (.number b) line =
      rounded op line (operation a.value b.value) := by
  cases op with
  | add =>
    cases hop
    rw [rounded, ← add?_eq]
    rfl
  | subtract =>
    cases hop
    rw [rounded, ← sub?_eq]
    rfl
  | multiply =>
    cases hop
    rw [rounded, ← mul?_eq]
    rfl
  | divide =>
    cases hop
    rw [applyBinary_divide (hb rfl), rounded, ← div?_eq a (hb rfl)]
    rfl
  | _ => cases hop

/-- A quotient that is found is the one that the operation has. -/
theorem div?_of_applyBinary {line : Nat} {q : Number}
    (h : applyBinary .divide (.number a) (.number b) line = .ok (.number q)) :
    a.div? b = some q := by
  by_cases hb : b = zero
  · subst hb
    cases h
  · rw [applyBinary_divide hb, arithmetic_number] at h
    split at h
    · rename_i n hn
      cases h
      exact hn
    · cases h

/-- Sums, differences, products and quotients of numbers are the exact ones, truncated toward zero
to six places, or are refused where that is out of range; nothing on the way overflows a word. A
remainder is refused for one dividend and divisor only. A quotient can always be multiplied back,
and comes close to the dividend without passing it. -/
theorem arithmetic_exact_or_refused (a b : Number) (line : Nat) :
    (∀ op operation, BinaryOp.rational? op = some operation → (op = .divide → b ≠ zero) →
      applyBinary op (.number a) (.number b) line =
        rounded op line (operation a.value b.value)) ∧
    applyBinary .divide (.number a) (.number zero) line = .error (.divisionByZero line) ∧
    (mulSteps a b = .ok (a.mul? b) ∧ divSteps a b = .ok (a.div? b)) ∧
    (b ≠ zero →
      (a.raw = minRaw ∧ b.raw = -1) ∧
          applyBinary .modulo (.number a) (.number b) line = .error (.overflow "%" line) ∨
        ¬(a.raw = minRaw ∧ b.raw = -1) ∧
          ∃ r, applyBinary .modulo (.number a) (.number b) line = .ok (.number r) ∧
            IsRemainder a.value b.value r.value) ∧
    (∀ q, applyBinary .divide (.number a) (.number b) line = .ok (.number q) →
      ∃ p, applyBinary .multiply (.number q) (.number b) line = .ok (.number p) ∧
        p.magnitude ≤ a.magnitude ∧
        |(a.raw - p.raw : ℚ)| < |(b.raw : ℚ)| / 1000000 + 1) := by
  refine ⟨fun op operation => applyBinary_eq_rounded line, rfl,
    ⟨mulSteps_eq a b, divSteps_eq a b⟩, fun hb => ?_, fun q hq => ?_⟩
  · rw [applyBinary_modulo hb, arithmetic_number]
    rcases rem?_cases hb with ⟨hlast, hnone⟩ | ⟨hother, r, hr, hrest⟩
    · rw [hnone]
      exact .inl ⟨hlast, rfl⟩
    · rw [hr]
      exact .inr ⟨hother, r, rfl, hrest⟩
  · obtain ⟨p, hp, hmagnitude, hshort⟩ := mul?_of_div? (div?_of_applyBinary hq)
    refine ⟨p, ?_, hmagnitude, hshort⟩
    show arithmetic .multiply (.number q) (.number b) line mul? = _
    rw [arithmetic_number, hp]

/-- A third, multiplied back, falls short of one by a millionth. -/
theorem third_multiplied_back :
    let three : Number := { raw := 3000000 }
    let third : Number := { raw := 333333 }
    applyBinary .divide (.number one) (.number three) 1 = .ok (.number third) ∧
      ∃ p, applyBinary .multiply (.number third) (.number three) 1 = .ok (.number p) ∧
        p.raw = 999999 ∧ p.magnitude ≤ one.magnitude := by
  intro three third
  have hdivided : applyBinary .divide (.number one) (.number three) 1 = .ok (.number third) := rfl
  obtain ⟨p, hp, hmagnitude, _⟩ :=
    (arithmetic_exact_or_refused one three 1).2.2.2.2 third hdivided
  refine ⟨hdivided, p, hp, ?_, hmagnitude⟩
  cases hp
  rfl

end Value

end DecimalScript
