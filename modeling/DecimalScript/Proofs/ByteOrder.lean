import DecimalScript.Proofs.Encoding
import Mathlib.Tactic.ByContra

/-!
# Bytes in the order of characters

Where two characters differ, so do their bytes, and in the same direction. So texts are in the same
order by their characters as by their bytes.
-/

namespace DecimalScript

namespace Text

/-- Of byte strings of one length, the order does not depend on what follows them. -/
theorem append_lt_append {first second : List UInt8} (hlength : first.length = second.length)
    (h : first < second) (rest others : List UInt8) : first ++ rest < second ++ others := by
  induction first generalizing second with
  | nil =>
    obtain rfl := List.length_eq_zero_iff.mp hlength.symm
    exact absurd h (List.lt_irrefl _)
  | cons a first ih =>
    cases second with
    | nil => cases hlength
    | cons b second =>
      rw [List.cons_append, List.cons_append, List.cons_lt_cons_iff]
      exact (List.cons_lt_cons_iff.mp h).imp_right fun ⟨hab, hmore⟩ =>
        ⟨hab, ih (Nat.succ.inj hlength) hmore⟩

/-- A smaller first byte decides. -/
theorem cons_lt_cons_of_byte {m n : Nat} (h : m % 256 < n % 256) (rest others : List UInt8) :
    UInt8.ofNat m :: rest < UInt8.ofNat n :: others := by
  refine List.cons_lt_cons_iff.mpr (.inl ?_)
  rwa [UInt8.lt_iff_toNat_lt, UInt8.toNat_ofNat', UInt8.toNat_ofNat']

/-- The order of numbers is that of their digits in base 64. -/
theorem digits_lt {m n : Nat} (h : m < n) : m / 262144 < n / 262144 ∨ m / 262144 = n / 262144 ∧
    (m / 4096 % 64 < n / 4096 % 64 ∨ m / 4096 % 64 = n / 4096 % 64 ∧
      (m / 64 % 64 < n / 64 % 64 ∨ m / 64 % 64 = n / 64 % 64 ∧ m % 64 < n % 64)) := by
  omega

/-- The bytes of a smaller character are smaller, whatever follows them. -/
theorem encodeChar_lt {c d : Char} (h : c < d) (rest others : List UInt8) :
    String.utf8EncodeChar c ++ rest < String.utf8EncodeChar d ++ others := by
  have hc : IsScalar c.val.toNat := c.valid
  have hd : IsScalar d.val.toNat := d.valid
  have hlt : c.val.toNat < d.val.toNat := h
  unfold String.utf8EncodeChar
  generalize c.val.toNat = m at hc hlt
  generalize d.val.toNat = n at hd hlt
  unfold IsScalar at hc hd
  have hdigits := digits_lt hlt
  dsimp only
  -- A smaller character has no more bytes. If it has fewer of them, the first ones differ, and else
  -- the bytes are digits of the codes.
  split_ifs
  all_goals first
    | omega
    | exact cons_lt_cons_of_byte (by omega) _ _
    | refine append_lt_append (by rfl) ?_ rest others
      simp only [List.cons_lt_cons_iff, UInt8.lt_iff_toNat_lt, ← UInt8.toNat_inj,
        List.not_lt_nil, and_false, or_false]
      simp (disch := omega) only [toNat_ofNat_byte, Nat.mod_eq_of_lt]
      omega

/-- The bytes of a smaller text are smaller. -/
theorem utf8_lt {s t : List Char} (h : s < t) : utf8 s < utf8 t := by
  induction h with
  | @nil c t =>
    obtain ⟨b, rest, hchar, -⟩ := encodeChar_eq_cons c
    rw [utf8, utf8, List.flatMap_cons, hchar]
    exact List.nil_lt_cons _ _
  | rel hchar => exact encodeChar_lt hchar _ _
  | cons _ ih => exact List.append_left_lt ih

/-- Texts are in the order of their bytes. -/
theorem lt_iff_bytes {s t : String} : s < t ↔ bytesOf s < bytesOf t := by
  refine ⟨fun h => utf8_lt (String.lt_iff.mp h), fun h => ?_⟩
  by_contra hnot
  by_cases hgt : t < s
  · exact List.lt_asymm h (utf8_lt (String.lt_iff.mp hgt))
  · obtain rfl := String.le_antisymm (String.not_lt.mp hgt) (String.not_lt.mp hnot)
    exact List.lt_irrefl _ h

end Text

end DecimalScript
