import DecimalScript.Text.Blank
import DecimalScript.Text.Utf8
import Mathlib.Tactic.SplitIfs

/-!
# Texts in their bytes

A text is read back from its bytes. Reading starts afresh at an ASCII byte, wherever it stands, so
bytes may be read in pieces that end before such a byte, and what a text is made of is cut with its
bytes there.
-/

namespace DecimalScript.Text

/-! ### Characters in their bytes -/

/-- The code points of characters leave out the surrogates. -/
def IsScalar (code : Nat) : Prop := code < 0xD800 ∨ 0xDFFF < code ∧ code < 0x110000

theorem toNat_ofNat_byte {n : Nat} (h : n < 256) : (UInt8.ofNat n).toNat = n := by
  rw [UInt8.toNat_ofNat', Nat.mod_eq_of_lt h]

section

variable {sequence : OpenSequence} {b : UInt8} {rest : List UInt8}

theorem decodeItems_of_open (h : openSequence b.toNat = ([], some sequence)) :
    decodeItems none (b :: rest) = decodeItems (some sequence) rest := by
  rw [decodeItems, decodeStep, h]
  rfl

/-- A byte in range goes on with a sequence. -/
theorem decodeItems_continue {further low high code n : Nat} (hlow : low ≤ n % 64 + 0x80)
    (hhigh : n % 64 + 0x80 ≤ high) :
    decodeItems (some ⟨further + 1, low, high, code⟩) (UInt8.ofNat (n % 64 + 0x80) :: rest) =
      decodeItems (some ⟨further, 0x80, 0xBF, code * 64 + n % 64⟩) rest := by
  have hbyte : (UInt8.ofNat (n % 64 + 0x80)).toNat = n % 64 + 0x80 := toNat_ofNat_byte (by omega)
  simp only [decodeItems, decodeStep, continueSequence, hbyte]
  simp [hlow, hhigh]

/-- The last byte of a sequence completes its character. -/
theorem decodeItems_complete {code n : Nat} :
    decodeItems (some ⟨0, 0x80, 0xBF, code⟩) (UInt8.ofNat (n % 64 + 0x80) :: rest) =
      some (Char.ofNat (code * 64 + n % 64)) :: decodeItems none rest := by
  have hbyte : (UInt8.ofNat (n % 64 + 0x80)).toNat = n % 64 + 0x80 := toNat_ofNat_byte (by omega)
  have hhigh : n % 64 + 0x80 ≤ 0xBF := by omega
  simp only [decodeItems, decodeStep, continueSequence, hbyte]
  simp [hhigh]

end

theorem openSequence_two {code : Nat} (hlow : 0x7F < code) (hhigh : code ≤ 0x7FF) :
    openSequence (code / 64 + 0xC0) = ([], some ⟨0, 0x80, 0xBF, code / 64⟩) := by
  rw [openSequence, if_neg (by omega), if_neg (by omega), if_pos (by omega), Nat.add_sub_cancel]

/-- The first byte of three bounds the second one so that no shorter form and no surrogate
follows. -/
theorem openSequence_three {code : Nat} (hcode : IsScalar code) (hlow : 0x7FF < code)
    (hhigh : code ≤ 0xFFFF) :
    ∃ low high, openSequence (code / 4096 + 0xE0) = ([], some ⟨1, low, high, code / 4096⟩) ∧
      low ≤ code / 64 % 64 + 0x80 ∧ code / 64 % 64 + 0x80 ≤ high := by
  unfold IsScalar at hcode
  unfold openSequence
  rw [if_neg (by omega), if_neg (by omega), if_neg (by omega)]
  split
  · rename_i hfirst
    exact ⟨_, _, by rw [show code / 4096 = 0 by omega], by omega, by omega⟩
  · split
    · exact ⟨_, _, by rw [Nat.add_sub_cancel], by omega, by omega⟩
    · rw [if_pos (by omega)]
      exact ⟨_, _, by rw [Nat.add_sub_cancel], by omega, by omega⟩

/-- The first byte of four bounds the second one so that no shorter form and no code past the last
one follows. -/
theorem openSequence_four {code : Nat} (hcode : IsScalar code) (hlow : 0xFFFF < code) :
    ∃ low high, openSequence (code / 262144 + 0xF0) = ([], some ⟨2, low, high, code / 262144⟩) ∧
      low ≤ code / 4096 % 64 + 0x80 ∧ code / 4096 % 64 + 0x80 ≤ high := by
  unfold IsScalar at hcode
  unfold openSequence
  rw [if_neg (by omega), if_neg (by omega), if_neg (by omega), if_neg (by omega),
    if_neg (by omega), if_neg (by omega)]
  split
  · exact ⟨_, _, by rw [show code / 262144 = 0 by omega], by omega, by omega⟩
  · split
    · exact ⟨_, _, by rw [Nat.add_sub_cancel], by omega, by omega⟩
    · rw [if_pos (by omega)]
      exact ⟨_, _, by rw [Nat.add_sub_cancel], by omega, by omega⟩

/-- A character is read back from its bytes. -/
theorem decodeItems_encodeChar (c : Char) (rest : List UInt8) :
    decodeItems none (String.utf8EncodeChar c ++ rest) = some c :: decodeItems none rest := by
  have hcode : IsScalar c.val.toNat := c.valid
  have hchar : Char.ofNat c.val.toNat = c := Char.ofNat_toNat c
  unfold String.utf8EncodeChar
  generalize c.val.toNat = code at hcode hchar
  subst hchar
  dsimp only
  split
  · rw [List.singleton_append, decodeItems, decodeStep, toNat_ofNat_byte (by omega), openSequence,
      if_pos (by omega)]
    rfl
  split
  · have hfirst : (UInt8.ofNat (code / 64 % 32 + 192)).toNat = code / 64 + 0xC0 := by
      rw [toNat_ofNat_byte (by omega)]
      omega
    have hsum : code / 64 * 64 + code % 64 = code := by omega
    have hopen : openSequence (code / 64 + 0xC0) = ([], some ⟨0, 0x80, 0xBF, code / 64⟩) :=
      openSequence_two (by omega) (by omega)
    rw [List.cons_append, List.cons_append, List.nil_append, decodeItems_of_open (hfirst ▸ hopen),
      decodeItems_complete, hsum]
  split
  · have hfirst : (UInt8.ofNat (code / 4096 % 16 + 224)).toNat = code / 4096 + 0xE0 := by
      rw [toNat_ofNat_byte (by omega)]
      omega
    have hsum : (code / 4096 * 64 + code / 64 % 64) * 64 + code % 64 = code := by omega
    obtain ⟨low, high, hopen, hlow, hhigh⟩ := openSequence_three hcode (by omega) (by omega)
    simp only [List.cons_append, List.nil_append]
    rw [decodeItems_of_open (hfirst ▸ hopen), decodeItems_continue hlow hhigh,
      decodeItems_complete, hsum]
  · have hlast : code < 0x110000 := by
      unfold IsScalar at hcode
      omega
    have hfirst : (UInt8.ofNat (code / 262144 % 8 + 240)).toNat = code / 262144 + 0xF0 := by
      rw [toNat_ofNat_byte (by omega)]
      omega
    have hsum : ((code / 262144 * 64 + code / 4096 % 64) * 64 + code / 64 % 64) * 64 + code % 64 =
        code := by omega
    obtain ⟨low, high, hopen, hlow, hhigh⟩ := openSequence_four hcode (by omega)
    simp only [List.cons_append, List.nil_append]
    rw [decodeItems_of_open (hfirst ▸ hopen), decodeItems_continue hlow hhigh,
      decodeItems_continue (Nat.le_add_left _ _) (by omega), decodeItems_complete, hsum]

theorem utf8_append (first second : List Char) :
    utf8 (first ++ second) = utf8 first ++ utf8 second :=
  List.flatMap_append

/-- A text is read back from its bytes, whatever follows them. -/
theorem decodeLossy_utf8_append (text : List Char) (rest : List UInt8) :
    decodeLossy (utf8 text ++ rest) = text ++ decodeLossy rest := by
  induction text with
  | nil => rfl
  | cons c text ih =>
    rw [utf8, List.flatMap_cons, List.append_assoc, decodeLossy, decodeItems_encodeChar,
      List.map_cons, Option.getD_some]
    exact congrArg (c :: ·) ih

theorem decodeLossy_utf8 (text : List Char) : decodeLossy (utf8 text) = text := by
  have hread := decodeLossy_utf8_append text []
  rwa [List.append_nil, show decodeLossy [] = [] from rfl, List.append_nil] at hread

/-- The bytes of a text have no malformed part. -/
theorem decode?_utf8 (text : List Char) : decode? (utf8 text) = some text := by
  induction text with
  | nil => rfl
  | cons c text ih =>
    rw [utf8, List.flatMap_cons, decode?, decodeItems_encodeChar, List.mapM_cons]
    exact congrArg (fun rest => some c >>= fun c => rest >>= fun rest => pure (c :: rest)) ih

/-! ### Bytes that start afresh -/

/-- No sequence runs on into bytes: there are none, or an ASCII byte is first. -/
def Fresh (bytes : List UInt8) : Prop := ∀ b ∈ bytes.head?, b.toNat < 0x80

theorem fresh_nil : Fresh [] := nofun

theorem fresh_cons {b : UInt8} {rest : List UInt8} (h : b.toNat < 0x80) : Fresh (b :: rest) := by
  rintro _ ⟨⟩
  exact h

theorem openSequence_of_ascii {b : Nat} (h : b < 0x80) :
    openSequence b = ([some (Char.ofNat b)], none) := if_pos h

/-- A sequence that goes on with bytes that are not ASCII, and that no ASCII character comes of. -/
structure Wide (sequence : OpenSequence) : Prop where
  low : 0x80 ≤ sequence.low
  code : 2 ≤ sequence.code * 64 + (sequence.low - 0x80)
  last : sequence.further = 0 → 2 ≤ sequence.code

theorem wide_of_openSequence {b : Nat} : ∀ s ∈ (openSequence b).2, Wide s := by
  unfold openSequence
  repeat' split
  all_goals
    intro s hs
    cases hs
  all_goals constructor <;> dsimp only <;> omega

/-- All sequences that reading opens are of this kind. -/
theorem wide_of_decodeStep {pending : Option OpenSequence} {b : UInt8}
    (hpending : ∀ s ∈ pending, Wide s) : ∀ s ∈ (decodeStep pending b).2, Wide s := by
  cases pending with
  | none => exact wide_of_openSequence
  | some sequence =>
    obtain ⟨hlow, hcode, hlast⟩ := hpending sequence rfl
    unfold decodeStep continueSequence
    dsimp only
    split_ifs with hrange hfurther
    · simp
    · have hbyte : sequence.low ≤ b.toNat := by simp at hrange; omega
      simp only [Option.mem_some_iff, forall_eq']
      constructor <;> dsimp only <;> omega
    · exact wide_of_openSequence

/-- A sequence is malformed where an ASCII byte or the end comes next. -/
theorem decodeItems_fresh {pending : Option OpenSequence} {bytes : List UInt8}
    (hpending : ∀ s ∈ pending, Wide s) (h : Fresh bytes) :
    decodeItems pending bytes = decodeItems pending [] ++ decodeItems none bytes := by
  cases pending with
  | none => rfl
  | some sequence =>
    cases bytes with
    | nil => rfl
    | cons b rest =>
      have hascii := h b rfl
      have hlow := (hpending sequence rfl).low
      have hbelow :
          (decide (sequence.low ≤ b.toNat) && decide (b.toNat ≤ sequence.high)) = false := by
        simp only [Bool.and_eq_false_iff, decide_eq_false_iff_not]
        omega
      simp [decodeItems, decodeStep, continueSequence, hbelow, openSequence_of_ascii hascii]

/-- Items are read in pieces. -/
theorem decodeItems_append {pending : Option OpenSequence} {second : List UInt8}
    (hpending : ∀ s ∈ pending, Wide s) (h : Fresh second) (first : List UInt8) :
    decodeItems pending (first ++ second) =
      decodeItems pending first ++ decodeItems none second := by
  induction first generalizing pending with
  | nil => exact decodeItems_fresh hpending h
  | cons b first ih =>
    simp only [List.cons_append, decodeItems]
    rw [ih (wide_of_decodeStep hpending), List.append_assoc]

/-- Characters are read in pieces. -/
theorem decodeLossy_append {second : List UInt8} (h : Fresh second) (first : List UInt8) :
    decodeLossy (first ++ second) = decodeLossy first ++ decodeLossy second := by
  rw [decodeLossy, decodeItems_append (by simp) h, List.map_append]
  rfl

/-- An ASCII byte is read as its character. -/
theorem decodeLossy_cons {b : UInt8} (h : b.toNat < 0x80) (rest : List UInt8) :
    decodeLossy (b :: rest) = Char.ofNat b.toNat :: decodeLossy rest := by
  rw [decodeLossy, decodeItems, decodeStep, openSequence_of_ascii h]
  rfl

/-- ASCII bytes are read one by one. -/
theorem decodeLossy_of_ascii {bytes : List UInt8} (h : ∀ b ∈ bytes, b.toNat < 0x80) :
    decodeLossy bytes = bytes.map fun b => Char.ofNat b.toNat := by
  induction bytes with
  | nil => rfl
  | cons b rest ih =>
    obtain ⟨hfirst, hrest⟩ := List.forall_mem_cons.mp h
    rw [decodeLossy_cons hfirst, ih hrest, List.map_cons]

/-- A blank byte is read as white space. -/
theorem ascii_of_blank {b : UInt8} (h : isBlankByte b = true) :
    b.toNat < 0x80 ∧ isBlank (Char.ofNat b.toNat) = true := by
  simp only [isBlankByte, Bool.or_eq_true, beq_iff_eq] at h
  rcases h with (((rfl | rfl) | rfl) | rfl) | rfl <;> decide

/-- A character that no ASCII byte is read as, except for the one with code zero. -/
def Foreign (c : Char) : Prop := c.toNat = 0 ∨ 0x80 ≤ c.toNat

theorem foreign_ofNat {n : Nat} (h : 0x80 ≤ n) : Foreign (Char.ofNat n) := by
  unfold Char.ofNat
  by_cases hvalid : n.isValidChar
  · rw [dif_pos hvalid]
    exact .inr h
  · rw [dif_neg hvalid]
    exact .inl rfl

/-- What bytes that are not ASCII are read as is not ASCII either, and each of them either goes on
with a sequence or completes something. -/
theorem decodeStep_of_wide {pending : Option OpenSequence} {b : UInt8}
    (hpending : ∀ s ∈ pending, Wide s) (hb : 0x80 ≤ b.toNat) :
    (∀ item ∈ (decodeStep pending b).1, Foreign (item.getD '\uFFFD')) ∧
      ((decodeStep pending b).2 = none → (decodeStep pending b).1 ≠ []) := by
  have hmalformed : Foreign '\uFFFD' := .inr (by decide)
  have hopen : (∀ item ∈ (openSequence b.toNat).1, Foreign (item.getD '\uFFFD')) ∧
      ((openSequence b.toNat).2 = none → (openSequence b.toNat).1 ≠ []) := by
    unfold openSequence
    rw [if_neg (Nat.not_lt_of_le hb)]
    repeat' split
    all_goals simp [hmalformed]
  cases pending with
  | none => exact hopen
  | some sequence =>
    obtain ⟨hlow, hcode, hlast⟩ := hpending sequence rfl
    unfold decodeStep continueSequence
    dsimp only
    split_ifs with hrange hfurther
    · have hwide := hlast hfurther
      simpa using foreign_ofNat (by omega)
    · simp
    · simpa [hmalformed] using hopen.1

/-! ### Cutting a text with its bytes -/

/-- An ASCII character is one byte with its code, and any other character has no ASCII byte. -/
theorem encodeChar_cases (c : Char) :
    (∃ b, String.utf8EncodeChar c = [b] ∧ b.toNat < 0x80 ∧ Char.ofNat b.toNat = c) ∨
      String.utf8EncodeChar c ≠ [] ∧ ∀ x ∈ String.utf8EncodeChar c, 0x80 ≤ x.toNat := by
  have hcode : IsScalar c.val.toNat := c.valid
  have hchar : Char.ofNat c.val.toNat = c := Char.ofNat_toNat c
  have htail : ∀ n, 0x80 ≤ (UInt8.ofNat (n % 64 + 128)).toNat := fun n => by
    rw [toNat_ofNat_byte (by omega)]
    exact Nat.le_add_left _ _
  have hlead : ∀ n, 0x80 ≤ n → n < 0x100 → 0x80 ≤ (UInt8.ofNat n).toNat := fun n hn hlt => by
    rwa [toNat_ofNat_byte hlt]
  unfold String.utf8EncodeChar
  generalize c.val.toNat = code at hcode hchar
  dsimp only
  split
  · have hbyte : (UInt8.ofNat code).toNat = code := toNat_ofNat_byte (by omega)
    exact .inl ⟨_, rfl, by omega, by rw [hbyte, hchar]⟩
  right
  split
  · exact ⟨List.cons_ne_nil _ _, List.forall_mem_cons.mpr ⟨hlead _ (by omega) (by omega),
      List.forall_mem_singleton.mpr (htail _)⟩⟩
  split
  · exact ⟨List.cons_ne_nil _ _, List.forall_mem_cons.mpr ⟨hlead _ (by omega) (by omega),
      List.forall_mem_cons.mpr ⟨htail _, List.forall_mem_singleton.mpr (htail _)⟩⟩⟩
  · exact ⟨List.cons_ne_nil _ _, List.forall_mem_cons.mpr ⟨hlead _ (by omega) (by omega),
      List.forall_mem_cons.mpr ⟨htail _, List.forall_mem_cons.mpr ⟨htail _,
        List.forall_mem_singleton.mpr (htail _)⟩⟩⟩⟩

/-- A byte that only stands inside a character. -/
def Continues (b : UInt8) : Prop := 0x80 ≤ b.toNat ∧ b.toNat < 0xC0

/-- The first byte of a character does not only stand inside characters, and the others do. -/
theorem encodeChar_eq_cons (c : Char) :
    ∃ b rest, String.utf8EncodeChar c = b :: rest ∧ ¬Continues b ∧ ∀ x ∈ rest, Continues x := by
  have hcode : IsScalar c.val.toNat := c.valid
  have htail : ∀ n, Continues (UInt8.ofNat (n % 64 + 128)) := fun n => by
    unfold Continues
    rw [toNat_ofNat_byte (by omega)]
    omega
  have hlead : ∀ n, n < 0x80 ∨ 0xC0 ≤ n → n < 0x100 → ¬Continues (UInt8.ofNat n) := by
    intro n hn hlt
    unfold Continues
    rw [toNat_ofNat_byte hlt]
    omega
  unfold IsScalar at hcode
  unfold String.utf8EncodeChar
  generalize c.val.toNat = code at hcode
  dsimp only
  split
  · exact ⟨_, _, rfl, hlead _ (by omega) (by omega), List.forall_mem_nil _⟩
  split
  · exact ⟨_, _, rfl, hlead _ (by omega) (by omega), List.forall_mem_singleton.mpr (htail _)⟩
  split
  · exact ⟨_, _, rfl, hlead _ (by omega) (by omega),
      List.forall_mem_cons.mpr ⟨htail _, List.forall_mem_singleton.mpr (htail _)⟩⟩
  · exact ⟨_, _, rfl, hlead _ (by omega) (by omega),
      List.forall_mem_cons.mpr ⟨htail _, List.forall_mem_cons.mpr ⟨htail _,
        List.forall_mem_singleton.mpr (htail _)⟩⟩⟩

/-- A text is cut between two characters with its bytes, unless the second part begins inside a
character. -/
theorem cut_of_not_continues {text : List Char} {first second : List UInt8}
    (h : utf8 text = first ++ second) (hsecond : ∀ b ∈ second.head?, ¬Continues b) :
    ∃ before after, text = before ++ after ∧ utf8 before = first ∧ utf8 after = second := by
  induction text generalizing first with
  | nil =>
    obtain ⟨rfl, rfl⟩ := List.append_eq_nil_iff.mp h.symm
    exact ⟨[], [], rfl, rfl, rfl⟩
  | cons c text ih =>
    cases first with
    | nil => exact ⟨[], c :: text, rfl, rfl, h⟩
    | cons b first =>
      obtain ⟨lead, tail, hchar, -, htail⟩ := encodeChar_eq_cons c
      have hbytes : utf8 (c :: text) = lead :: (tail ++ utf8 text) := by
        rw [utf8, List.flatMap_cons, hchar]
        rfl
      rw [hbytes, List.cons_append, List.cons.injEq] at h
      obtain ⟨rfl, hrest⟩ := h
      have hlonger : ∃ more, first = tail ++ more ∧ utf8 text = more ++ second := by
        rcases List.append_eq_append_iff.mp hrest with ⟨more, hmore, hlast⟩ | ⟨more, hmore, hlast⟩
        · exact ⟨more, hmore, hlast⟩
        · -- A byte of the character inside `second` would be its first, and it begins no character.
          cases more with
          | nil => exact ⟨[], by simpa using hmore.symm, hlast.symm⟩
          | cons x more => exact absurd (htail x (by simp [hmore])) (hsecond x (by simp [hlast]))
      obtain ⟨more, rfl, hmore⟩ := hlonger
      obtain ⟨before, after, rfl, rfl, hafter⟩ := ih hmore
      refine ⟨c :: before, after, rfl, ?_, hafter⟩
      rw [utf8, List.flatMap_cons, hchar]
      rfl

/-- Where its bytes start afresh, a text is cut between two characters. -/
theorem cut_of_fresh {text : List Char} {first second : List UInt8}
    (h : utf8 text = first ++ second) (hsecond : Fresh second) :
    ∃ before after, text = before ++ after ∧ utf8 before = first ∧ utf8 after = second :=
  cut_of_not_continues h fun b hb hcontinues => Nat.not_lt_of_le hcontinues.1 (hsecond b hb)

end DecimalScript.Text
