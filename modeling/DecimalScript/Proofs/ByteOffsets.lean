import DecimalScript.Proofs.Encoding
import DecimalScript.Proofs.Occurrences
import DecimalScript.Text.ByteSearch

/-!
# Occurrences in bytes

The bytes of a text that is not empty begin with one that begins a character, so they occur in the
bytes of another text only where characters begin. The first occurrence is therefore the same
whether it is looked for in bytes or in characters, and the bytes in front of it are those of the
characters in front of it.
-/

namespace DecimalScript.Text

variable {part text before after : List Char}

/-- A byte string is found where it is a prefix of the rest and of no longer one. -/
theorem byteIndexIn?_eq_some {part bytes : List UInt8} {n : Nat} (hfound : part <+: bytes.drop n)
    (hfirst : ∀ k < n, ¬part <+: bytes.drop k) : byteIndexIn? part bytes = some n := by
  induction bytes generalizing n with
  | nil =>
    rw [List.drop_nil] at hfound
    cases n with
    | zero => rw [byteIndexIn?, if_pos (by simpa using hfound)]
    | succ n => exact absurd (by simpa using hfound) (hfirst 0 (Nat.succ_pos n))
  | cons b rest ih =>
    unfold byteIndexIn?
    cases n with
    | zero => exact if_pos (List.isPrefixOf_iff_prefix.mpr hfound)
    | succ n =>
      have hnot : ¬part.isPrefixOf (b :: rest) = true := by
        rw [List.isPrefixOf_iff_prefix]
        exact hfirst 0 (Nat.succ_pos n)
      rw [if_neg hnot, ih hfound fun k hk => hfirst (k + 1) (Nat.succ_lt_succ hk)]
      rfl

/-- A byte string that is found occurs. -/
theorem occurs_of_byteIndexIn? {part bytes : List UInt8} {n : Nat}
    (h : byteIndexIn? part bytes = some n) : ∃ first last, bytes = first ++ (part ++ last) := by
  induction bytes generalizing n with
  | nil =>
    unfold byteIndexIn? at h
    split at h
    · rename_i hempty
      exact ⟨[], [], by rw [List.isEmpty_iff.mp hempty]; rfl⟩
    · cases h
  | cons b rest ih =>
    unfold byteIndexIn? at h
    split at h
    · rename_i hfound
      obtain ⟨last, hlast⟩ := List.isPrefixOf_iff_prefix.mp hfound
      exact ⟨[], last, hlast.symm⟩
    · obtain ⟨k, hk, -⟩ := Option.map_eq_some_iff.mp h
      obtain ⟨first, last, rfl⟩ := ih hk
      exact ⟨b :: first, last, rfl⟩

/-- Where the bytes of a text occur, the text does, with the bytes in front of it those of the
characters in front of it. -/
theorem occurrence_of_bytes {first last : List UInt8} (hpart : part ≠ [])
    (h : utf8 text = first ++ (utf8 part ++ last)) :
    ∃ earlier later, text = earlier ++ (part ++ later) ∧ utf8 earlier = first := by
  obtain ⟨c, rest, rfl⟩ := List.exists_cons_of_ne_nil hpart
  obtain ⟨lead, tail, hchar, hlead, -⟩ := encodeChar_eq_cons c
  have hstart : ∀ b ∈ (utf8 (c :: rest) ++ last).head?, ¬Continues b := by
    intro b hb
    rw [utf8, List.flatMap_cons, hchar, List.cons_append, List.cons_append, List.head?_cons] at hb
    cases hb
    exact hlead
  obtain ⟨earlier, behind, rfl, hfirst, hbehind⟩ := cut_of_not_continues h hstart
  refine ⟨earlier, decodeLossy last, ?_, hfirst⟩
  rw [← decodeLossy_utf8_append, ← hbehind, decodeLossy_utf8]

/-- A prefix has no more bytes than the whole. -/
theorem length_utf8_le {other : List Char} (h : before <+: other) :
    (utf8 before).length ≤ (utf8 other).length := by
  obtain ⟨rest, rfl⟩ := h
  rw [utf8_append, List.length_append]
  exact Nat.le_add_right _ _

/-- The first occurrence in bytes is the first one in characters. -/
theorem FirstCut.byteIndexIn? (h : FirstCut part text before after) :
    byteIndexIn? (utf8 part) (utf8 text) = some (utf8 before).length := by
  have hbytes : utf8 text = utf8 before ++ (utf8 part ++ utf8 after) := by
    rw [h.eq, utf8_append, utf8_append]
  refine byteIndexIn?_eq_some ?_ fun k hk hoccurs => ?_
  · rw [hbytes, List.drop_left]
    exact List.prefix_append _ _
  · obtain ⟨last, hlast⟩ := hoccurs
    have hcut : utf8 text = (utf8 text).take k ++ (utf8 part ++ last) := by
      rw [hlast, List.take_append_drop]
    by_cases hpart : part = []
    · subst hpart
      have hnone : before.length ≤ 0 := h.first [] text rfl
      rw [List.eq_nil_of_length_eq_zero (Nat.le_zero.mp hnone)] at hk
      exact Nat.not_lt_zero k hk
    · obtain ⟨earlier, later, htext, hearlier⟩ := occurrence_of_bytes hpart hcut
      have hprefix : before <+: earlier := by
        refine List.prefix_of_prefix_length_le ⟨_, h.eq.symm⟩ ⟨_, htext.symm⟩ ?_
        exact h.first earlier later htext
      have hle := length_utf8_le hprefix
      have hlength : (utf8 earlier).length ≤ k := by
        rw [hearlier]
        exact List.length_take_le _ _
      omega

end DecimalScript.Text
