import DecimalScript.Eval.Perform
import DecimalScript.Eval.Watch
import DecimalScript.Proofs.DecimalText
import DecimalScript.Proofs.PlainNames
import DecimalScript.Proofs.Relayout

/-!
# Printed numbers read back

The text of a number without its sign denotes the magnitude of the number, so it is read as that
magnitude where it is in range. In a source the sign is a token of its own, which negates the number
behind it. So every number reads back but the least one, whose magnitude is one more than the
greatest number; and different numbers have different texts.
-/

namespace DecimalScript

namespace Number

/-! ### The text of a magnitude -/

/-- The text of a count of millionths without a sign. -/
def unsignedChars (count : Nat) : List Char :=
  if count % 1000000 = 0 then Nat.toDigits 10 (count / 1000000)
  else Nat.toDigits 10 (count / 1000000) ++ '.' :: trimmedFraction (count % 1000000)

/-- The text of a number is that of its magnitude behind its sign. -/
theorem toChars_eq (n : Number) :
    n.toChars = (if n.raw < 0 then ['-'] else []) ++ unsignedChars n.magnitude := by
  unfold toChars unsignedChars
  dsimp only
  split
  · rfl
  · rw [List.append_assoc]

theorem isDigit_of_toDigits (n : Nat) : ∀ c ∈ Nat.toDigits 10 n, c.isDigit :=
  fun _ hc => Nat.isDigit_of_mem_toDigits (by decide) (by decide) hc

/-- The digits of a fraction with zeros before them, up to all places. -/
def paddedFraction (fraction : Nat) : List Char :=
  List.replicate (places - (Nat.toDigits 10 fraction).length) '0' ++ Nat.toDigits 10 fraction

theorem length_paddedFraction {fraction : Nat} (h : fraction < 1000000) :
    (paddedFraction fraction).length = places := by
  have hlength : (Nat.toDigits 10 fraction).length ≤ places :=
    (Nat.length_toDigits_le_iff (by decide) (by decide)).mpr h
  rw [paddedFraction, List.length_append, List.length_replicate, Nat.sub_add_cancel hlength]

theorem digitsValue_paddedFraction (fraction : Nat) :
    digitsValue (paddedFraction fraction) = fraction := by
  rw [paddedFraction, digitsValue_append, digitsValue_zeros, zero_mul, zero_add, digitsValue_eq,
    Nat.ofDigitChars_ten_toDigits]

theorem isDigit_of_paddedFraction (fraction : Nat) : ∀ c ∈ paddedFraction fraction, c.isDigit := by
  intro c hc
  rcases List.mem_append.mp hc with hc | hc
  · rw [List.eq_of_mem_replicate hc]
    rfl
  · exact isDigit_of_toDigits fraction c hc

/-- Only zeros are trimmed. -/
theorem trimmedFraction_append (fraction : Nat) :
    ∃ zeros, trimmedFraction fraction ++ List.replicate zeros '0' = paddedFraction fraction := by
  have hsplit := List.takeWhile_append_dropWhile (p := (· == '0'))
    (l := (paddedFraction fraction).reverse)
  have hrun : ((paddedFraction fraction).reverse.takeWhile (· == '0')).reverse =
      List.replicate ((paddedFraction fraction).reverse.takeWhile (· == '0')).length '0' := by
    refine List.eq_replicate_iff.mpr ⟨List.length_reverse, fun c hc => ?_⟩
    have hzero := List.mem_takeWhile_imp (List.mem_reverse.mp hc)
    exact beq_iff_eq.mp hzero
  have hreversed := congrArg List.reverse hsplit
  rw [List.reverse_append, List.reverse_reverse, hrun] at hreversed
  exact ⟨_, hreversed⟩

/-- The digits of a fraction count for as much without the zeros. -/
theorem trimmedFraction_value {fraction : Nat} (h : fraction < 1000000) :
    (digitsValue (trimmedFraction fraction) : ℚ) / 10 ^ (trimmedFraction fraction).length =
      fraction / 10 ^ 6 := by
  obtain ⟨zeros, hpadded⟩ := trimmedFraction_append fraction
  have hlength := length_paddedFraction h
  have hvalue := digitsValue_paddedFraction fraction
  rw [← hpadded, List.length_append, List.length_replicate] at hlength
  rw [← hpadded, digitsValue_append, digitsValue_zeros, add_zero, List.length_replicate] at hvalue
  have hplaces : (10 : ℚ) ^ 6 = 10 ^ (trimmedFraction fraction).length * 10 ^ zeros := by
    rw [← pow_add, hlength]
    rfl
  have hcast : (fraction : ℚ) = digitsValue (trimmedFraction fraction) * 10 ^ zeros := by
    exact_mod_cast hvalue.symm
  rw [hplaces, hcast, mul_div_mul_right _ _ (by positivity)]

theorem isDigit_of_trimmedFraction (fraction : Nat) :
    ∀ c ∈ trimmedFraction fraction, c.isDigit := by
  obtain ⟨zeros, hpadded⟩ := trimmedFraction_append fraction
  intro c hc
  exact isDigit_of_paddedFraction fraction c (hpadded ▸ List.mem_append_left _ hc)

/-- Of a fraction that is not zero, a digit is left. -/
theorem trimmedFraction_ne_nil {fraction : Nat} (h : fraction ≠ 0) :
    trimmedFraction fraction ≠ [] := by
  obtain ⟨zeros, hpadded⟩ := trimmedFraction_append fraction
  intro hnil
  rw [hnil, List.nil_append] at hpadded
  have hvalue := digitsValue_paddedFraction fraction
  rw [← hpadded, digitsValue_zeros] at hvalue
  exact h hvalue.symm

/-- The text of a magnitude denotes it. -/
theorem denotes_unsignedChars (count : Nat) :
    Denotes (unsignedChars count) ((count : ℚ) / 10 ^ 6) := by
  have hcount : (count : ℚ) / 10 ^ 6 = (Nat.ofDigitChars 10 (Nat.toDigits 10 (count / 1000000)) 0 :
      Nat) + (count % 1000000 : Nat) / 10 ^ 6 := by
    have hsplit : (1000000 * (count / 1000000 : Nat) + (count % 1000000 : Nat) : ℚ) = count := by
      exact_mod_cast Nat.div_add_mod count 1000000
    rw [Nat.ofDigitChars_ten_toDigits, ← hsplit]
    ring
  unfold unsignedChars
  split
  · rename_i hzero
    rw [hcount, hzero, Nat.cast_zero, zero_div, add_zero]
    exact .whole Nat.toDigits_ne_nil (isDigit_of_toDigits _)
  · have hfraction := trimmedFraction_value (Nat.mod_lt count (by decide : 0 < 1000000))
    rw [hcount, ← hfraction, digitsValue_eq]
    refine .pointed (by simp [Nat.toDigits_ne_nil]) fun c hc => ?_
    rcases List.mem_append.mp hc with hc | hc
    · exact isDigit_of_toDigits _ c hc
    · exact isDigit_of_trimmedFraction _ c hc

/-- The text of a magnitude is read as the number of that magnitude, where it is in range. -/
theorem ofDigits?_unsignedChars (count : Nat) : ofDigits? (unsignedChars count) = ofRaw? count := by
  rw [ofDigits?_of_denotes (denotes_unsignedChars count), div_mul_cancel₀ _ (by norm_num),
    Int.floor_natCast]

/-- The text of a magnitude is a run of digits, or two with a point between them. -/
theorem unsignedChars_eq (count : Nat) :
    ∃ digits fraction : List Char, (∀ c ∈ digits ++ fraction, c.isDigit) ∧ digits ≠ [] ∧
      (unsignedChars count = digits ∨
        fraction ≠ [] ∧ unsignedChars count = digits ++ '.' :: fraction) := by
  refine ⟨Nat.toDigits 10 (count / 1000000), trimmedFraction (count % 1000000), fun c hc => ?_,
    Nat.toDigits_ne_nil, ?_⟩
  · rcases List.mem_append.mp hc with hc | hc
    · exact isDigit_of_toDigits _ c hc
    · exact isDigit_of_trimmedFraction _ c hc
  · unfold unsignedChars
    split
    · exact .inl rfl
    · rename_i hfraction
      exact .inr ⟨trimmedFraction_ne_nil hfraction, rfl⟩

end Number

/-! ### The bytes of a text of ASCII characters -/

namespace Text

/-- ASCII characters are one byte each. -/
theorem utf8_of_ascii {text : List Char} (h : ∀ c ∈ text, c.toNat < 128) :
    utf8 text = text.map Token.code := by
  induction text with
  | nil => rfl
  | cons c rest ih =>
    obtain ⟨hfirst, hrest⟩ := List.forall_mem_cons.mp h
    have hbytes : String.utf8EncodeChar c = [Token.code c] := by
      have hcode : c.val.toNat ≤ 127 := Nat.le_of_lt_succ hfirst
      unfold String.utf8EncodeChar
      dsimp only
      rw [if_pos hcode]
      rfl
    have hlater := ih hrest
    rw [utf8] at hlater
    rw [utf8, List.flatMap_cons, hbytes, hlater, List.map_cons, List.singleton_append]

theorem toNat_code {c : Char} (h : c.toNat < 128) : (Token.code c).toNat = c.toNat :=
  Nat.mod_eq_of_lt (by omega)

/-- ASCII characters are read back from their bytes. -/
theorem decodeLossy_map_code {text : List Char} (h : ∀ c ∈ text, c.toNat < 128) :
    decodeLossy (text.map Token.code) = text := by
  have hascii : ∀ b ∈ text.map Token.code, b.toNat < 128 := by
    intro b hb
    obtain ⟨c, hc, rfl⟩ := List.mem_map.mp hb
    rw [toNat_code (h c hc)]
    exact h c hc
  rw [decodeLossy_of_ascii hascii, List.map_map]
  refine (List.map_congr_left fun c hc => ?_).trans (List.map_id text)
  rw [Function.comp_apply, toNat_code (h c hc), Char.ofNat_toNat, id]

end Text

/-! ### Scanning a number -/

namespace Token

theorem toNat_lt_of_isDigit {c : Char} (h : c.isDigit) : c.toNat < 128 :=
  (Number.toNat_of_isDigit h).2.trans_lt (by decide)

theorem isDigitByte_code {c : Char} (h : c.isDigit) : isDigitByte (code c) = true := by
  have hrange := Number.toNat_of_isDigit h
  have hbyte := Text.toNat_code (toNat_lt_of_isDigit h)
  rw [isDigitByte, Bool.and_eq_true, decide_eq_true_iff, decide_eq_true_iff, UInt8.le_iff_toNat_le,
    UInt8.le_iff_toNat_le, hbyte]
  exact hrange

/-- A digit is not blank and begins no comment and no path, and it is in no symbol. -/
theorem ne_of_isDigitByte {b : UInt8} (h : isDigitByte b = true) :
    Text.isBlankByte b = false ∧ b ≠ code '#' ∧ b ≠ code '/' ∧ b ≠ code '.' ∧
      ∀ pair ∈ Symbol.pairs, b ≠ code pair.1.1 ∧ b ≠ code pair.1.2 := by
  have hall : ∀ n : Fin 256, isDigitByte (UInt8.ofFin n) = true →
      Text.isBlankByte (UInt8.ofFin n) = false ∧ UInt8.ofFin n ≠ code '#' ∧
        UInt8.ofFin n ≠ code '/' ∧ UInt8.ofFin n ≠ code '.' ∧ ∀ pair ∈ Symbol.pairs,
          UInt8.ofFin n ≠ code pair.1.1 ∧ UInt8.ofFin n ≠ code pair.1.2 := by decide +kernel
  exact hall b.toFin h

/-- A number begins at a digit. -/
theorem scanHead_of_digit {b : UInt8} (h : isDigitByte b = true) (rest : List UInt8) :
    scanHead b rest = scanNumber (b :: rest) := by
  obtain ⟨-, hcomment, hblock, hdot, hpairs⟩ := ne_of_isDigitByte h
  have hpath : startsPath (b :: rest) = false := by
    cases rest with
    | nil => rfl
    | cons second rest => simp [startsPath, hdot]
  have hpair : pairSymbol? (b :: rest) = none := by
    cases rest with
    | nil => rfl
    | cons second rest =>
      rw [pairSymbol?, Option.map_eq_none_iff, List.find?_eq_none]
      intro pair hpair
      simp [(hpairs pair hpair).1]
  unfold scanHead
  simp [hcomment, hblock, hpath, hpair, h]

/-- A minus sign before a digit is a symbol of its own. -/
theorem scanHead_minus {b : UInt8} (h : isDigitByte b = true) (rest : List UInt8) :
    scanHead (code '-') (b :: rest) = .ok ⟨some (.symbol .minus), 0⟩ := by
  obtain ⟨-, -, -, -, hpairs⟩ := ne_of_isDigitByte h
  have hpair : pairSymbol? (code '-' :: b :: rest) = none := by
    rw [pairSymbol?, Option.map_eq_none_iff, List.find?_eq_none]
    intro pair hpair
    simp [(hpairs pair hpair).2]
  unfold scanHead
  dsimp only
  rw [hpair]
  rfl

/-- A run of digits is part of a number as a whole. -/
theorem numberLength_of_digits {digits after : List UInt8}
    (h : ∀ b ∈ digits, isDigitByte b = true) (hafter : ∀ b ∈ after.head?, isDigitByte b = false) :
    numberLength (digits ++ after) = digits.length + fractionLength after := by
  have hstop : after.takeWhile isDigitByte = [] := by
    cases after with
    | nil => rfl
    | cons b after => exact List.takeWhile_cons_of_neg (by simp [hafter b rfl])
  have hrun : (digits ++ after).takeWhile isDigitByte = digits := by
    rw [List.takeWhile_append_of_pos h, hstop, List.append_nil]
  rw [numberLength, hrun, List.drop_left]

theorem fractionLength_of_digits {fraction : List UInt8} (hsome : fraction ≠ [])
    (h : ∀ b ∈ fraction, isDigitByte b = true) :
    fractionLength (code '.' :: fraction) = fraction.length + 1 := by
  cases fraction with
  | nil => exact absurd rfl hsome
  | cons b rest =>
    obtain ⟨hfirst, hrest⟩ := List.forall_mem_cons.mp h
    rw [fractionLength, if_pos (by simp [hfirst]), List.takeWhile_eq_self_iff.mpr hrest,
      List.length_cons]

end Token

namespace Number

theorem toNat_lt_of_unsignedChars (count : Nat) : ∀ c ∈ unsignedChars count, c.toNat < 128 := by
  obtain ⟨digits, fraction, hdigits, -, hchars⟩ := unsignedChars_eq count
  obtain ⟨hwhole, hfraction⟩ := List.forall_mem_append.mp hdigits
  intro c hc
  rcases hchars with hchars | ⟨-, hchars⟩
  · exact Token.toNat_lt_of_isDigit (hwhole c (hchars ▸ hc))
  · rw [hchars, List.mem_append, List.mem_cons] at hc
    rcases hc with hc | rfl | hc
    · exact Token.toNat_lt_of_isDigit (hwhole c hc)
    · decide
    · exact Token.toNat_lt_of_isDigit (hfraction c hc)

/-- The text of a magnitude is one number from its first byte to its last. -/
theorem numberLength_unsignedChars (count : Nat) :
    Token.numberLength ((unsignedChars count).map Token.code) = (unsignedChars count).length := by
  obtain ⟨digits, fraction, hdigits, -, hchars⟩ := unsignedChars_eq count
  obtain ⟨hwhole, hfraction⟩ := List.forall_mem_append.mp hdigits
  have hbytes : ∀ chars : List Char, (∀ c ∈ chars, c.isDigit) →
      ∀ b ∈ chars.map Token.code, Token.isDigitByte b = true := by
    intro chars hchars b hb
    obtain ⟨c, hc, rfl⟩ := List.mem_map.mp hb
    exact Token.isDigitByte_code (hchars c hc)
  rcases hchars with hchars | ⟨hsome, hchars⟩
  · have hlength := @Token.numberLength_of_digits _ [] (hbytes digits hwhole) (by simp)
    rw [List.append_nil] at hlength
    rw [hchars, hlength, List.length_map]
    rfl
  · rw [hchars, List.map_append, List.map_cons,
      Token.numberLength_of_digits (hbytes digits hwhole) (by rintro b ⟨⟩; rfl),
      Token.fractionLength_of_digits (by simpa using hsome) (hbytes fraction hfraction)]
    simp

/-- What the scanner of numbers makes of the text of a magnitude. -/
theorem scanNumber_unsignedChars (count : Nat) :
    Token.scanNumber ((unsignedChars count).map Token.code) =
      match ofRaw? count with
      | none => .error (.numberRange (String.ofList (unsignedChars count)))
      | some value => .ok ⟨some (.number value), (unsignedChars count).length - 1⟩ := by
  have hread := ofDigits?_unsignedChars count
  unfold Token.scanNumber
  dsimp only
  rw [numberLength_unsignedChars, List.take_of_length_le (by rw [List.length_map]),
    Text.decodeLossy_map_code (toNat_lt_of_unsignedChars count)]
  cases hvalue : ofRaw? (count : Int) with
  | none => simp only [hread, hvalue]
  | some value => simp only [hread, hvalue]

/-- The text of a magnitude begins with a digit. -/
theorem unsignedChars_cons (count : Nat) :
    ∃ c rest, c.isDigit ∧ unsignedChars count = c :: rest := by
  obtain ⟨digits, fraction, hdigits, hsome, hchars⟩ := unsignedChars_eq count
  cases digits with
  | nil => exact absurd rfl hsome
  | cons c digits =>
    have hfirst := hdigits c List.mem_cons_self
    rcases hchars with hchars | ⟨-, hchars⟩
    · exact ⟨c, digits, hfirst, hchars⟩
    · exact ⟨c, digits ++ '.' :: fraction, hfirst, hchars⟩

variable {read : List Token} {line : Nat}

/-- The text of a magnitude is one token, or out of range. -/
theorem tokensFrom_unsignedChars (count : Nat) :
    Token.tokensFrom read line ((unsignedChars count).map Token.code) =
      match ofRaw? count with
      | none => .error ⟨.numberRange (String.ofList (unsignedChars count)), line⟩
      | some value =>
        let bytes := (unsignedChars count).map Token.code
        .ok (read.reverse ++ [⟨.number value, Token.lexemeOf bytes, line⟩,
          Token.endOn (line + Token.newlines bytes)]) := by
  have hscan := scanNumber_unsignedChars count
  obtain ⟨c, rest, hdigit, hchars⟩ := unsignedChars_cons count
  have hbyte := Token.isDigitByte_code hdigit
  have hblank := (Token.ne_of_isDigitByte hbyte).1
  rw [hchars, List.map_cons] at hscan ⊢
  rw [← Token.scanHead_of_digit hbyte] at hscan
  cases hvalue : ofRaw? (count : Int) with
  | none =>
    rw [hvalue] at hscan
    rw [Token.tokensFrom_eq_readFrom, List.takeWhile_cons_of_neg (by simp [hblank]),
      List.dropWhile_cons_of_neg (by simp [hblank]), Token.readFrom, hscan]
    rfl
  | some value =>
    rw [hvalue] at hscan
    have hhead : Token.scanHead (Token.code c) (rest.map Token.code ++ []) =
        .ok ⟨some (.number value), (rest.map Token.code).length⟩ := by
      rw [List.append_nil, hscan, List.length_map]
      rfl
    have htokens := @Token.tokensFrom_head read line _ _ _ _ hblank hhead
    rw [List.append_nil, Token.tokensFrom_nil] at htokens
    rw [htokens]
    simp

/-- The bytes of a number are those of its magnitude behind its sign. -/
theorem bytesOf_text (n : Number) :
    Text.bytesOf n.text = (if n.raw < 0 then [Token.code '-'] else []) ++
      (unsignedChars n.magnitude).map Token.code := by
  have hascii : ∀ c ∈ n.toChars, c.toNat < 128 := by
    intro c hc
    rw [toChars_eq, List.mem_append] at hc
    rcases hc with hc | hc
    · split at hc
      · cases List.mem_singleton.mp hc
        decide
      · cases hc
    · exact toNat_lt_of_unsignedChars _ c hc
  rw [Text.bytesOf, text, String.toList_ofList, Text.utf8_of_ascii hascii, toChars_eq,
    List.map_append]
  split <;> rfl

/-- A number that is not negative is one token. -/
theorem ofSource_of_nonneg {n : Number} (h : 0 ≤ n.raw) :
    ∃ lexeme last, Token.ofSource (Text.bytesOf n.text) =
      .ok [⟨.number n, lexeme, 1⟩, Token.endOn last] := by
  have hmagnitude : (n.magnitude : Int) = n.raw := Int.natAbs_of_nonneg h
  rw [bytesOf_text, if_neg (by omega), List.nil_append, Token.ofSource, tokensFrom_unsignedChars,
    hmagnitude, ofRaw?_raw]
  exact ⟨_, _, rfl⟩

/-- A negative number is its sign and its magnitude. -/
theorem ofSource_of_neg {n : Number} (h : n.raw < 0) :
    ∃ sign, Token.ofSource (Text.bytesOf n.text) =
      match ofRaw? (-n.raw) with
      | none => .error ⟨.numberRange (String.ofList (unsignedChars n.magnitude)), 1⟩
      | some value =>
        let bytes := (unsignedChars n.magnitude).map Token.code
        .ok [⟨.symbol .minus, sign, 1⟩, ⟨.number value, Token.lexemeOf bytes, 1⟩,
          Token.endOn (1 + Token.newlines bytes)] := by
  have hmagnitude : (n.magnitude : Int) = -n.raw := Int.ofNat_natAbs_of_nonpos (le_of_lt h)
  have hrest := @tokensFrom_unsignedChars
    [⟨.symbol .minus, Token.lexemeOf [Token.code '-'], 1⟩] 1 n.magnitude
  obtain ⟨c, rest, hdigit, hchars⟩ := unsignedChars_cons n.magnitude
  refine ⟨Token.lexemeOf [Token.code '-'], ?_⟩
  rw [hmagnitude] at hrest
  rw [bytesOf_text, if_pos h, Token.ofSource]
  rw [hchars, List.map_cons] at hrest ⊢
  have hhead := @Token.tokensFrom_head [] 1 (Token.code '-') [] _ _ (by decide)
    (Token.scanHead_minus (Token.isDigitByte_code hdigit) (rest.map Token.code))
  rw [List.cons_append, List.nil_append] at hhead ⊢
  rw [hhead]
  exact hrest

end Number

/-! ### Evaluating what was read -/

/-- What is evaluated may nest as deep as it is large. -/
theorem Machine.size_le_nestingBound (m : Machine) (size : Nat) (importing : Bool) :
    size ≤ m.nestingBound size importing := by
  have hsize : size ≤ max size m.storedSize := Nat.le_max_left _ _
  unfold nestingBound
  dsimp only
  split
  · exact (hsize.trans (Nat.le_max_left _ _)).trans
      ((Nat.le_succ _).trans (Nat.le_mul_of_pos_left _ (Nat.succ_pos _)))
  · exact hsize.trans ((Nat.le_succ _).trans (Nat.le_mul_of_pos_left _ (Nat.succ_pos _)))

/-- Nesting as deep as an expression is large is enough for it, if it does not call. -/
theorem Eval.runExpr_eq {expr : Expr} {m : Machine} {outcome : Outcome Value}
    (h : ∀ spare, Job.perform (spare + expr.size) (.evaluate expr) m = outcome) :
    runExpr expr m = outcome := by
  have hdepth := Nat.sub_add_cancel (m.size_le_nestingBound expr.size false)
  rw [runExpr, bounded, ← hdepth]
  exact h _

namespace Number

theorem runExpr_literal (line : Nat) (n : Number) (m : Machine) :
    Eval.runExpr (.literal line (.number n)) m = .ok (.number n) m :=
  Eval.runExpr_eq fun _ => rfl

/-- A negated literal has the negation of its number as value. -/
theorem runExpr_negate (line : Nat) {n value : Number} (h : value.neg? = some n) (m : Machine) :
    Eval.runExpr (.negate line (.literal line (.number value))) m = .ok (.number n) m := by
  refine Eval.runExpr_eq fun spare => ?_
  have hnegated : (Value.number value).negated line = .ok (.number n) := by
    rw [Value.negated, h]
  change Eval.ofExcept ((Value.number value).negated line) m = _
  rw [hnegated]
  rfl

/-- The least number has no text that is read back. -/
theorem ofSource_of_least {n : Number} (h : n.raw = minRaw) :
    Token.ofSource (Text.bytesOf n.text) = .error ⟨.numberRange "9223372036854.775808", 1⟩ := by
  obtain ⟨sign, hread⟩ := ofSource_of_neg (n := n) (by rw [h]; decide)
  have hliteral : String.ofList (unsignedChars n.magnitude) = "9223372036854.775808" := by
    rw [magnitude, h]
    decide +kernel
  rw [hread, h, hliteral]
  rfl

/-- A number that is not the least is read back. -/
theorem reads_back {n : Number} (h : n.raw ≠ minRaw) :
    ∃ tokens expr last, Token.ofSource (Text.bytesOf n.text) = .ok tokens ∧
      (∀ level, Expr.ofTokens level tokens = .ok (expr, [Token.endOn last])) ∧
        ∀ m, Eval.runExpr expr m = .ok (.number n) m := by
  by_cases hsign : 0 ≤ n.raw
  · obtain ⟨lexeme, last, hread⟩ := ofSource_of_nonneg hsign
    exact ⟨_, .literal 1 (.number n), last, hread, fun _ => rfl, runExpr_literal 1 n⟩
  · have hlow := n.minRaw_le
    have hnegated : ∃ value, ofRaw? (-n.raw) = some value := by
      refine ⟨⟨-n.raw, ?_, ?_⟩, ofRaw?_eq_some_iff.mpr rfl⟩
      · unfold minRaw
        omega
      · unfold minRaw at h hlow
        unfold maxRaw
        omega
    obtain ⟨value, hvalue⟩ := hnegated
    obtain ⟨sign, hread⟩ := ofSource_of_neg (n := n) (by omega)
    rw [hvalue] at hread
    have hback : value.neg? = some n := by
      rw [neg?, ofRaw?_eq_some_iff, ofRaw?_eq_some_iff.mp hvalue, Int.neg_neg]
    exact ⟨_, .negate 1 (.literal 1 (.number value)), _, hread, fun _ => rfl,
      runExpr_negate 1 hback⟩

/-- The text of a number is the source of one expression, which has the number as value in every
machine. Only the text of the least number is refused, since its magnitude is out of range. So
different numbers have different texts. -/
theorem printed_number_reads_back :
    (∀ n : Number, n.raw ≠ minRaw →
      ∃ tokens expr last, Token.ofSource (Text.bytesOf n.text) = .ok tokens ∧
        (∀ level, Expr.ofTokens level tokens = .ok (expr, [Token.endOn last])) ∧
          ∀ m, Eval.runExpr expr m = .ok (.number n) m) ∧
    (∀ n : Number, n.raw = minRaw → Token.ofSource (Text.bytesOf n.text) =
      .error ⟨.numberRange "9223372036854.775808", 1⟩) ∧
    Function.Injective text := by
  refine ⟨fun n => reads_back, fun n => ofSource_of_least, fun n other htext => ?_⟩
  by_cases hn : n.raw = minRaw
  · by_cases hother : other.raw = minRaw
    · exact ext_raw (hn.trans hother.symm)
    · obtain ⟨_, _, _, hread, -⟩ := reads_back hother
      rw [← htext, ofSource_of_least hn] at hread
      cases hread
  · obtain ⟨tokens, expr, last, hread, hexpr, hvalue⟩ := reads_back hn
    by_cases hother : other.raw = minRaw
    · rw [htext, ofSource_of_least hother] at hread
      cases hread
    · obtain ⟨others, same, end', hread', hexpr', hvalue'⟩ := reads_back hother
      rw [← htext, hread] at hread'
      cases hread'
      have hsame := hexpr' 0
      rw [hexpr 0] at hsame
      cases hsame
      have hvalues := hvalue' {}
      rw [hvalue {}] at hvalues
      cases hvalues
      rfl

/-- One millionth below zero is read back. -/
theorem printed_number_reads_back_below_zero :
    ∃ tokens expr last, Token.ofSource (Text.bytesOf "-0.000001") = .ok tokens ∧
      (∀ level, Expr.ofTokens level tokens = .ok (expr, [Token.endOn last])) ∧
        ∀ m, Eval.runExpr expr m = .ok (.number { raw := -1 }) m := by
  have htext : text { raw := -1 } = "-0.000001" := by decide +kernel
  exact htext ▸ printed_number_reads_back.1 { raw := -1 } (by decide)

end Number

end DecimalScript
