import DecimalScript.Number.Rational
import DecimalScript.Number.Words
import Mathlib.Data.List.TakeWhile
import Mathlib.Tactic.FieldSimp
import Mathlib.Tactic.Linarith

/-!
# Decimal text is read exactly

A text is a number exactly where it denotes a rational, and the number is that rational without what
is behind its sixth place. Filling a fraction up with zeros and taking six digits of it is a
division by the power of ten that the digits left out stand for. The steps of the reader stay
within their words: a whole part that does not fit is refused by the guards, and the sum of a
fraction stays below one unit of the whole part.
-/

namespace DecimalScript

namespace Number

/-! ### Runs of digits -/

theorem all_isDigit {digits : List Char} :
    digits.all isDigit = true ↔ ∀ c ∈ digits, c.isDigit := List.all_eq_true

theorem digitsValue_eq (digits : List Char) :
    digitsValue digits = Nat.ofDigitChars 10 digits 0 := by
  rw [Nat.ofDigitChars_eq_foldl, digitsValue]
  simp only [mul_comm]
  rfl

theorem digitsValue_append (first second : List Char) :
    digitsValue (first ++ second) =
      digitsValue first * 10 ^ second.length + digitsValue second := by
  have hfirst : Nat.ofDigitChars 10 (first ++ second) 0 =
      Nat.ofDigitChars 10 second (Nat.ofDigitChars 10 first 0) := by
    simp only [Nat.ofDigitChars_eq_foldl, List.foldl_append]
  rw [digitsValue_eq, digitsValue_eq, digitsValue_eq, hfirst,
    Nat.ofDigitChars_eq_ofDigitChars_zero, mul_comm]

theorem digitsValue_cons (c : Char) (rest : List Char) :
    digitsValue (c :: rest) = digitValue c * 10 ^ rest.length + digitsValue rest := by
  have h := digitsValue_append [c] rest
  simpa [digitsValue] using h

theorem toNat_of_isDigit {c : Char} (h : c.isDigit) :
    '0'.toNat ≤ c.toNat ∧ c.toNat ≤ '9'.toNat := by
  simpa [Char.isDigit, UInt32.le_iff_toNat_le] using h

theorem digitValue_lt {c : Char} (h : c.isDigit) : digitValue c < 10 := by
  have hrange := toNat_of_isDigit h
  have hwidth : '9'.toNat = '0'.toNat + 9 := rfl
  unfold digitValue
  omega

/-- A run of digits is less than the power of ten above it. -/
theorem digitsValue_lt {digits : List Char} (h : ∀ c ∈ digits, c.isDigit) :
    digitsValue digits < 10 ^ digits.length := by
  induction digits with
  | nil => exact Nat.zero_lt_one
  | cons c rest ih =>
    obtain ⟨hfirst, hrest⟩ := List.forall_mem_cons.mp h
    have hdigit := digitValue_lt hfirst
    have hbelow := ih hrest
    have hshift : digitValue c * 10 ^ rest.length + 10 ^ rest.length ≤ 10 * 10 ^ rest.length := by
      rw [← Nat.succ_mul]
      exact Nat.mul_le_mul_right _ hdigit
    rw [digitsValue_cons, List.length_cons, pow_succ, mul_comm _ 10]
    omega

theorem digitsValue_zeros (count : Nat) : digitsValue (List.replicate count '0') = 0 := by
  induction count with
  | zero => rfl
  | succ count ih =>
    rw [List.replicate_succ, digitsValue_cons, ih]
    simp [digitValue]

/-- The first digits of a run are its value without the digits behind them. -/
theorem digitsValue_take {digits : List Char} (h : ∀ c ∈ digits, c.isDigit) (count : Nat) :
    digitsValue (digits.take count) = digitsValue digits / 10 ^ (digits.length - count) := by
  have hrest := digitsValue_lt fun c hc => h c (List.mem_of_mem_drop (i := count) hc)
  have hsplit := digitsValue_append (digits.take count) (digits.drop count)
  rw [List.take_append_drop] at hsplit
  rw [List.length_drop] at hrest hsplit
  rw [hsplit, mul_comm, Nat.mul_add_div (by positivity), Nat.div_eq_of_lt hrest, add_zero]

theorem isDigit_of_mem_filled {fraction : List Char} (h : ∀ c ∈ fraction, c.isDigit)
    (count : Nat) : ∀ c ∈ fraction ++ List.replicate count '0', c.isDigit := by
  intro c hc
  rcases List.mem_append.mp hc with hc | hc
  · exact h c hc
  · rw [List.eq_of_mem_replicate hc]
    rfl

/-- A fraction of as many places as are kept. -/
theorem digitsValue_fractionDigits {fraction : List Char} (h : ∀ c ∈ fraction, c.isDigit) :
    digitsValue (fractionDigits fraction) =
      digitsValue fraction * 10 ^ 6 / 10 ^ fraction.length := by
  have hlength : (fraction ++ List.replicate places '0').length - places = fraction.length := by
    simp
  rw [fractionDigits, digitsValue_take (isDigit_of_mem_filled h places), hlength,
    digitsValue_append, digitsValue_zeros, add_zero, List.length_replicate]
  rfl

/-! ### The point -/

theorem ne_point_of_isDigit {c : Char} (h : c.isDigit) : (c != '.') = true := by
  rw [bne_iff_ne]
  rintro rfl
  cases h

/-- A run of digits is all whole part. -/
theorem cutAtPoint_of_digits {digits : List Char} (h : ∀ c ∈ digits, c.isDigit) :
    cutAtPoint digits = (digits, []) := by
  have hrun : ∀ c ∈ digits, (c != '.') = true := fun c hc => ne_point_of_isDigit (h c hc)
  rw [cutAtPoint, List.takeWhile_eq_self_iff.mpr hrun, List.dropWhile_eq_nil_iff.mpr hrun]
  rfl

/-- A run of digits before a point is the whole part. -/
theorem cutAtPoint_of_pointed {digits : List Char} (h : ∀ c ∈ digits, c.isDigit)
    (fraction : List Char) : cutAtPoint (digits ++ '.' :: fraction) = (digits, fraction) := by
  have hrun : ∀ c ∈ digits, (c != '.') = true := fun c hc => ne_point_of_isDigit (h c hc)
  rw [cutAtPoint, List.takeWhile_append_of_pos hrun, List.dropWhile_append_of_pos hrun]
  simp

/-- A text is its whole part, or its whole part and its fraction around a point. -/
theorem eq_of_cutAtPoint {text digits fraction : List Char}
    (h : cutAtPoint text = (digits, fraction)) :
    text = digits ∧ fraction = [] ∨ text = digits ++ '.' :: fraction := by
  obtain ⟨rfl, rfl⟩ := Prod.mk.inj h
  have hsplit := List.takeWhile_append_dropWhile (p := (· != '.')) (l := text)
  cases hrest : text.dropWhile (· != '.') with
  | nil =>
    rw [hrest, List.append_nil] at hsplit
    exact .inl ⟨hsplit.symm, rfl⟩
  | cons c rest =>
    have hpoint := List.head_dropWhile_not (· != '.') (l := text) (by simp [hrest])
    have hc : c = '.' := by simpa [hrest] using hpoint
    right
    rw [hrest, hc] at hsplit
    exact hsplit.symm

/-! ### What a text denotes -/

/-- Six places of a whole part and a fraction. -/
theorem floor_pointed (whole fraction length : Nat) :
    ⌊((whole : ℚ) + fraction / 10 ^ length) * 10 ^ 6⌋ =
      whole * scale + (fraction * 10 ^ 6 / 10 ^ length : Nat) := by
  have hfraction := Rat.floor_intCast_div_natCast (fraction * 10 ^ 6 : Nat) (10 ^ length)
  have hsum : ((whole : ℚ) + fraction / 10 ^ length) * 10 ^ 6 =
      ((fraction * 10 ^ 6 : Nat) : Int) / ((10 ^ length : Nat) : ℚ) + (whole * scale : Int) := by
    simp only [scale]
    push_cast
    ring
  rw [hsum, Int.floor_add_intCast, hfraction, add_comm]
  norm_cast

/-- A text is read by its whole part and its fraction. -/
theorem ofDigits?_of_cut {text digits fraction : List Char}
    (hcut : cutAtPoint text = (digits, fraction)) (hsome : digits ++ fraction ≠ [])
    (hdigits : ∀ c ∈ digits ++ fraction, c.isDigit) :
    ofDigits? text = ofRaw? ⌊((Nat.ofDigitChars 10 digits 0 : ℚ) +
      Nat.ofDigitChars 10 fraction 0 / 10 ^ fraction.length) * 10 ^ 6⌋ := by
  have hfraction := (List.forall_mem_append.mp hdigits).2
  have hnonempty : ¬(digits.isEmpty && fraction.isEmpty) = true := by
    simpa using hsome
  rw [floor_pointed, ← digitsValue_eq, ← digitsValue_eq, ← digitsValue_fractionDigits hfraction]
  unfold ofDigits?
  rw [hcut]
  dsimp only
  rw [if_neg hnonempty, if_pos (all_isDigit.mpr hdigits)]

/-- A text that denotes a rational is read as that rational, cut to six places. -/
theorem ofDigits?_of_denotes {text : List Char} {x : ℚ} (h : Denotes text x) :
    ofDigits? text = ofRaw? ⌊x * 10 ^ 6⌋ := by
  cases h with
  | whole hsome hdigits =>
    have hread := ofDigits?_of_cut (cutAtPoint_of_digits hdigits) (by simpa using hsome)
      (by simpa using hdigits)
    simpa using hread
  | pointed hsome hdigits =>
    have hwhole := (List.forall_mem_append.mp hdigits).1
    exact ofDigits?_of_cut (cutAtPoint_of_pointed hwhole _) hsome hdigits

/-- Any other text is refused. -/
theorem ofDigits?_of_not_denotes {text : List Char} (h : ¬∃ x, Denotes text x) :
    ofDigits? text = none := by
  unfold ofDigits?
  cases hcut : cutAtPoint text with
  | mk digits fraction =>
    dsimp only
    split
    · rfl
    rename_i hnonempty
    have hsome : digits ++ fraction ≠ [] := by simpa using hnonempty
    split
    · rename_i hall
      have hdigits := all_isDigit.mp hall
      refine absurd ?_ h
      rcases eq_of_cutAtPoint hcut with ⟨rfl, rfl⟩ | rfl
      · rw [List.append_nil] at hsome hdigits
        exact ⟨_, .whole hsome hdigits⟩
      · exact ⟨_, .pointed hsome hdigits⟩
    · rfl

/-! ### Reading by steps -/

/-- A count that is not negative is in a long word as far as the greatest number goes. -/
theorem Word.long_holds_natCast {n : Nat} : Word.long.Holds n ↔ (n : Int) ≤ maxRaw := by
  unfold Holds long minRaw
  dsimp only
  omega

/-- A count that a long word cannot hold does not become one that it can by adding to it. -/
theorem refused_of_not_holds {n : Nat} (h : ¬Word.long.Holds (n * scale)) (more : Nat) :
    ofRaw? (n * scale + more) = none := by
  have hscaled : (n * scale : Int) = (n * 1000000 : Nat) := by simp [scale]
  rw [hscaled] at h ⊢
  rw [Word.long_holds_natCast] at h
  exact ofRaw?_eq_none_iff.mpr (.inr (by omega))

theorem scaled_not_holds {n : Nat} (h : ¬Word.long.Holds n) : ¬Word.long.Holds (n * scale) := by
  have hscaled : (n * scale : Int) = (n * 1000000 : Nat) := by simp [scale]
  rw [hscaled, Word.long_holds_natCast]
  rw [Word.long_holds_natCast] at h
  omega

/-- The guards of a whole part refuse it exactly where it does not fit, since what is read of it
only grows. -/
theorem wholeSteps_eq (digits : List Char) (value : Nat) (hvalue : Word.long.Holds value) :
    wholeSteps value digits =
      Word.long.guarded (value * 10 ^ digits.length + digitsValue digits : Nat) := by
  induction digits generalizing value with
  | nil =>
    simp only [List.length_nil, pow_zero, mul_one]
    exact (Word.guarded_of_holds hvalue).symm
  | cons c rest ih =>
    have hnext : value * 10 ^ (c :: rest).length + digitsValue (c :: rest) =
        (value * 10 + digitValue c) * 10 ^ rest.length + digitsValue rest := by
      rw [digitsValue_cons, List.length_cons, pow_succ]
      ring
    have hgrows : value * 10 + digitValue c ≤
        (value * 10 + digitValue c) * 10 ^ rest.length + digitsValue rest :=
      (Nat.le_mul_of_pos_right _ (by positivity)).trans (Nat.le_add_right _ _)
    rw [hnext]
    by_cases hshifted : Word.long.Holds (value * 10 : Nat)
    · by_cases hadded : Word.long.Holds (value * 10 + digitValue c : Nat)
      · rw [← ih _ hadded, wholeSteps]
        push_cast at hshifted hadded ⊢
        rw [Word.guarded_of_holds hshifted, Option.bind_eq_bind, Option.bind_some,
          Word.guarded_of_holds hadded, Option.bind_some]
      · have hend := mt (fun h => Word.long_holds_natCast.mpr
          ((Int.ofNat_le.mpr hgrows).trans (Word.long_holds_natCast.mp h))) hadded
        rw [Word.guarded_of_not_holds hend, wholeSteps]
        push_cast at hshifted hadded ⊢
        rw [Word.guarded_of_holds hshifted, Option.bind_eq_bind, Option.bind_some,
          Word.guarded_of_not_holds hadded, Option.bind_none]
    · have hend := mt (fun h => Word.long_holds_natCast.mpr
        ((Int.ofNat_le.mpr ((Nat.le_add_right _ _).trans hgrows)).trans
          (Word.long_holds_natCast.mp h))) hshifted
      rw [Word.guarded_of_not_holds hend, wholeSteps]
      push_cast at hshifted ⊢
      rw [Word.guarded_of_not_holds hshifted, Option.bind_eq_bind, Option.bind_none]

theorem placeValue_eq (above : Nat) : placeValue above = (10 ^ above : Nat) := by
  induction above with
  | zero => rfl
  | succ above ih =>
    rw [placeValue, ih, pow_succ]
    push_cast
    rfl

/-- A fraction is summed without an overflow: what is summed, with one unit of the last place that
was added, is at most one unit of the whole part. -/
theorem fractionSteps_eq {fraction : List Char} (h : ∀ c ∈ fraction, c.isDigit) {sum left : Nat}
    (hleft : left ≤ places) (hsum : sum + 10 ^ left ≤ 10 ^ 6) :
    fractionSteps sum left fraction = .ok
      (sum + digitsValue ((fraction ++ List.replicate places '0').take left) : Nat) := by
  induction left generalizing fraction sum with
  | zero => rfl
  | succ left ih =>
    cases fraction with
    | nil =>
      rw [List.nil_append, List.take_replicate, digitsValue_zeros]
      rfl
    | cons c rest =>
      obtain ⟨hfirst, hrest⟩ := List.forall_mem_cons.mp h
      have hdigit := digitValue_lt hfirst
      have hlength : ((rest ++ List.replicate places '0').take left).length = left := by
        rw [List.length_take, List.length_append, List.length_replicate]
        omega
      have hterm : digitValue c * 10 ^ left + 10 ^ left ≤ 10 ^ (left + 1) := by
        rw [pow_succ, mul_comm _ 10, ← Nat.succ_mul]
        exact Nat.mul_le_mul_right _ hdigit
      have hdigits : (c.toNat : Int) - '0'.toNat = digitValue c := by
        have hlow := toNat_of_isDigit hfirst
        unfold digitValue
        omega
      have hplace : Word.long.Holds (10 ^ left : Nat) :=
        Word.long_holds_natCast.mpr (by unfold maxRaw; omega)
      have hbyte : Word.byte.Holds (digitValue c) := by
        unfold Word.Holds Word.byte
        dsimp only
        omega
      have hweighed : Word.long.Holds (digitValue c * 10 ^ left : Nat) :=
        Word.long_holds_natCast.mpr (by unfold maxRaw; omega)
      have hadded : Word.long.Holds (sum + digitValue c * 10 ^ left : Nat) :=
        Word.long_holds_natCast.mpr (by unfold maxRaw; omega)
      rw [List.cons_append, List.take_succ_cons, digitsValue_cons, hlength, ← Nat.add_assoc,
        ← ih hrest (by omega) (by omega), fractionSteps, placeValue_eq, Word.plain_bind hplace,
        hdigits, Word.plain_bind hbyte, ← Nat.cast_mul, Word.plain_bind hweighed, ← Nat.cast_add,
        Word.plain_bind hadded]

/-- Reading by steps comes to the same: a whole part that a guard refuses is out of range with any
fraction. -/
theorem parseSteps_eq (text : List Char) : parseSteps text = .ok (ofDigits? text) := by
  unfold parseSteps ofDigits?
  cases hcut : cutAtPoint text with
  | mk digits fraction =>
    dsimp only
    split
    · rfl
    split
    · rename_i hall
      have hfraction := (List.forall_mem_append.mp (all_isDigit.mp hall)).2
      have hwhole : wholeSteps 0 digits = Word.long.guarded (digitsValue digits) := by
        simpa using wholeSteps_eq digits 0 (by decide)
      have hsum : fractionSteps 0 places fraction =
          .ok (digitsValue (fractionDigits fraction) : Int) := by
        have hroom : 0 + 10 ^ places ≤ 10 ^ 6 := by decide
        simpa [fractionDigits] using fractionSteps_eq hfraction (le_refl places) hroom
      rw [hwhole, hsum]
      by_cases hfits : Word.long.Holds (digitsValue digits)
      · rw [Word.guarded_of_holds hfits]
        dsimp only
        by_cases hscaled : Word.long.Holds (digitsValue digits * scale)
        · rw [Word.guarded_of_holds hscaled]
          rfl
        · have hout := refused_of_not_holds hscaled (digitsValue (fractionDigits fraction))
          rw [Word.guarded_of_not_holds hscaled, hout]
          rfl
      · have hout := refused_of_not_holds (scaled_not_holds hfits)
          (digitsValue (fractionDigits fraction))
        rw [Word.guarded_of_not_holds hfits, hout]
        rfl
    · rfl

theorem Denotes.nonneg {text : List Char} {x : ℚ} (h : Denotes text x) : 0 ≤ x := by
  cases h with
  | whole => positivity
  | pointed => positivity

/-- A text is read as a number exactly where it denotes a rational that is in range when it is cut
to six places, and the number is that rational. By steps on words it is read the same way, and no
step overflows that is not guarded. -/
theorem parse?_reads_what_is_denoted (text : String) :
    (∀ raw, (parse? text).map Number.raw = some raw ↔
      ∃ x, Denotes text.toList x ∧ raw = ⌊x * 10 ^ 6⌋ ∧ raw ≤ maxRaw) ∧
    parseSteps text.toList = .ok (parse? text) := by
  refine ⟨fun raw => ⟨fun h => ?_, ?_⟩, parseSteps_eq text.toList⟩
  · obtain ⟨n, hread, rfl⟩ := Option.map_eq_some_iff.mp h
    by_cases hdenotes : ∃ x, Denotes text.toList x
    · obtain ⟨x, hx⟩ := hdenotes
      rw [parse?, ofDigits?_of_denotes hx, ofRaw?_eq_some_iff] at hread
      exact ⟨x, hx, hread, n.le_maxRaw⟩
    · rw [parse?, ofDigits?_of_not_denotes hdenotes] at hread
      cases hread
  · rintro ⟨x, hx, rfl, hhigh⟩
    have hlow : minRaw ≤ ⌊x * 10 ^ 6⌋ := by
      have hfloor : 0 ≤ ⌊x * 10 ^ 6⌋ := Int.floor_nonneg.mpr (mul_nonneg hx.nonneg (by norm_num))
      exact le_trans (by decide) hfloor
    rw [parse?, ofDigits?_of_denotes hx, ofRaw?, dif_pos ⟨hlow, hhigh⟩]
    rfl

end Number

end DecimalScript
