import DecimalScript.Text.Search

/-!
# First occurrences

Cutting a text at another one finds the first occurrence, and finds one if there is any. So more
text behind an occurrence does not move it, and an occurrence that is known bounds the one that is
found.
-/

namespace DecimalScript.Text

/-- A text is cut at the first occurrence of a part. -/
structure FirstCut (part text before after : List Char) : Prop where
  /-- The part stands between what is before it and what is after it. -/
  eq : text = before ++ (part ++ after)
  /-- It occurs nowhere earlier. -/
  first : ∀ earlier later, text = earlier ++ (part ++ later) → before.length ≤ earlier.length

variable {part text before after : List Char}

/-- Where an occurrence in a longer text begins. -/
theorem occurrence_cons {c : Char} {rest earlier later : List Char}
    (h : c :: rest = earlier ++ (part ++ later)) :
    part <+: c :: rest ∨ ∃ more, earlier = c :: more ∧ rest = more ++ (part ++ later) := by
  cases earlier with
  | nil => exact .inl ⟨later, h.symm⟩
  | cons x more =>
    rw [List.cons_append, List.cons.injEq] at h
    obtain ⟨rfl, hrest⟩ := h
    exact .inr ⟨more, rfl, hrest⟩

/-- Nothing is found exactly if there is nothing to be found, and else the first occurrence is. -/
theorem cutAt?_spec (part text : List Char) :
    match cutAt? part text with
    | none => ∀ earlier later, text ≠ earlier ++ (part ++ later)
    | some (before, after) => FirstCut part text before after := by
  induction text with
  | nil =>
    unfold cutAt?
    split
    · rename_i hempty
      split at hempty
      · cases hempty
      · rename_i hpart
        intro earlier later h
        obtain ⟨-, hrest⟩ := List.append_eq_nil_iff.mp h.symm
        exact hpart (List.isEmpty_iff.mpr (List.append_eq_nil_iff.mp hrest).1)
    · rename_i before after hcut
      split at hcut
      · rename_i hpart
        cases hcut
        exact ⟨by simpa using (List.isEmpty_iff.mp hpart).symm, fun _ _ _ => Nat.zero_le _⟩
      · cases hcut
  | cons c rest ih =>
    by_cases hprefix : part <+: c :: rest
    · rw [cutAt?, if_pos (List.isPrefixOf_iff_prefix.mpr hprefix)]
      obtain ⟨after, hafter⟩ := hprefix
      refine ⟨?_, fun _ _ _ => Nat.zero_le _⟩
      rw [← hafter, List.drop_left, List.nil_append]
    · rw [cutAt?, if_neg (by rwa [List.isPrefixOf_iff_prefix])]
      cases hrest : cutAt? part rest with
      | none =>
        rw [hrest] at ih
        intro earlier later h
        rcases occurrence_cons h with hhere | ⟨more, -, hmore⟩
        · exact hprefix hhere
        · exact ih more later hmore
      | some cut =>
        obtain ⟨before, after⟩ := cut
        rw [hrest] at ih
        refine ⟨by rw [List.cons_append, ← ih.eq], fun earlier later h => ?_⟩
        rcases occurrence_cons h with hhere | ⟨more, rfl, hmore⟩
        · exact absurd hhere hprefix
        · exact Nat.succ_le_succ (ih.first more later hmore)

/-- A first occurrence is the only one. -/
theorem FirstCut.unique {other rest : List Char} (h : FirstCut part text before after)
    (hother : FirstCut part text other rest) : before = other ∧ after = rest := by
  have hlength : before.length = other.length :=
    Nat.le_antisymm (h.first _ _ hother.eq) (hother.first _ _ h.eq)
  obtain ⟨hbefore, hparts⟩ := List.append_inj (h.eq.symm.trans hother.eq) hlength
  exact ⟨hbefore, List.append_cancel_left hparts⟩

theorem cutAt?_eq_some_iff : cutAt? part text = some (before, after) ↔
    FirstCut part text before after := by
  have hspec := cutAt?_spec part text
  cases hcut : cutAt? part text with
  | none =>
    rw [hcut] at hspec
    exact ⟨nofun, fun h => absurd h.eq (hspec _ _)⟩
  | some cut =>
    obtain ⟨found, rest⟩ := cut
    rw [hcut] at hspec
    constructor
    · rintro ⟨⟩
      exact hspec
    · intro h
      obtain ⟨rfl, rfl⟩ := hspec.unique h
      rfl

/-- What occurs is found, and nothing of what stands behind it is passed. -/
theorem cutAt?_of_append (part before after : List Char) :
    ∃ found rest, cutAt? part (before ++ (part ++ after)) = some (found, rest) ∧
      after <:+ rest := by
  have hspec := cutAt?_spec part (before ++ (part ++ after))
  cases hcut : cutAt? part (before ++ (part ++ after)) with
  | none =>
    rw [hcut] at hspec
    exact absurd rfl (hspec before after)
  | some cut =>
    obtain ⟨found, rest⟩ := cut
    rw [hcut] at hspec
    have hle : found.length ≤ before.length := hspec.first _ _ rfl
    have hsuffix : part ++ after <:+ found ++ (part ++ rest) := ⟨before, hspec.eq⟩
    have hafter : after <:+ found ++ (part ++ rest) := (List.suffix_append part after).trans hsuffix
    have hrest : rest <:+ found ++ (part ++ rest) :=
      (List.suffix_append part rest).trans (List.suffix_append found _)
    refine ⟨found, rest, rfl, List.suffix_of_suffix_length_le hafter hrest ?_⟩
    have hlength := congrArg List.length hspec.eq
    simp only [List.length_append] at hlength
    omega

/-- More text behind an occurrence neither moves it nor gives an earlier one. -/
theorem FirstCut.append_iff {more : List Char} :
    FirstCut part (text ++ more) before (after ++ more) ↔ FirstCut part text before after := by
  have heq : text ++ more = before ++ (part ++ (after ++ more)) ↔
      text = before ++ (part ++ after) := by
    rw [← List.append_assoc part, ← List.append_assoc before, List.append_left_inj]
  constructor
  · intro h
    refine ⟨heq.mp h.eq, fun earlier later hearlier => ?_⟩
    refine h.first earlier (later ++ more) ?_
    rw [hearlier]
    simp
  · intro h
    refine ⟨heq.mpr h.eq, fun earlier later hearlier => ?_⟩
    refine Nat.le_of_not_lt fun hlt => ?_
    -- An earlier occurrence would end before this one, so it would lie in the shorter text.
    have hlength := congrArg List.length h.eq
    simp only [List.length_append] at hlength
    have hlonger : earlier ++ part <+: text ++ more := by
      rw [hearlier, ← List.append_assoc]
      exact List.prefix_append _ _
    have hinside : earlier ++ part <+: text := by
      refine List.prefix_of_prefix_length_le hlonger (List.prefix_append _ _) ?_
      simp only [List.length_append]
      omega
    obtain ⟨later, hlater⟩ := hinside
    rw [List.append_assoc] at hlater
    exact Nat.not_le_of_lt hlt (h.first earlier later hlater.symm)

end DecimalScript.Text
