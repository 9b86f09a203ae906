import DecimalScript.Library.Apply
import DecimalScript.Number.Rational
import DecimalScript.Proofs.ByteOffsets

/-!
# Searching and splitting texts

All functions that look for one text in another go by its first occurrence, so they agree on whether
there is one and where. What stands between occurrences are the parts of the text; put together
with what was between them they give it back, and put together with something else they are what
replacing gives.
-/

namespace DecimalScript

namespace Text

variable {part text : List Char}

/-- A text occurs in another one if it can be cut there. -/
theorem occursIn_eq (part text : List Char) : occursIn part text = (cutAt? part text).isSome := by
  induction text with
  | nil =>
    unfold occursIn cutAt?
    split
    · simp [*]
    · simp [*]
  | cons c rest ih =>
    unfold occursIn cutAt?
    split
    · simp [*]
    · simp [*]

/-- The index of a text in another one is the length of what stands before it. -/
theorem indexIn?_eq (part text : List Char) :
    indexIn? part text = (cutAt? part text).map (·.1.length) := by
  induction text with
  | nil =>
    unfold indexIn? cutAt?
    split
    · rfl
    · rfl
  | cons c rest ih =>
    unfold indexIn? cutAt?
    split
    · rfl
    · rw [ih, Option.map_map, Option.map_map]
      rfl

/-- A text occurs in another one if it stands somewhere in it. -/
theorem occursIn_iff : occursIn part text = true ↔ part <:+: text := by
  have hspec := cutAt?_spec part text
  rw [occursIn_eq]
  constructor
  · intro hsome
    obtain ⟨⟨before, after⟩, hcut⟩ := Option.isSome_iff_exists.mp hsome
    rw [hcut] at hspec
    exact ⟨before, after, by rw [List.append_assoc, hspec.eq]⟩
  · rintro ⟨before, after, htext⟩
    rw [← htext, List.append_assoc]
    obtain ⟨found, rest, hcut, -⟩ := cutAt?_of_append part before after
    rw [hcut]
    rfl

/-- The index of a text is that of its first occurrence. -/
theorem indexIn?_eq_some {n : Nat} (h : indexIn? part text = some n) :
    ∃ before after, FirstCut part text before after ∧ before.length = n := by
  rw [indexIn?_eq] at h
  obtain ⟨⟨before, after⟩, hcut, hlength⟩ := Option.map_eq_some_iff.mp h
  exact ⟨before, after, cutAt?_eq_some_iff.mp hcut, hlength⟩

theorem indexIn?_eq_none_iff : indexIn? part text = none ↔ ¬occursIn part text = true := by
  rw [indexIn?_eq, occursIn_eq, Option.map_eq_none_iff, Option.not_isSome_iff_eq_none]

/-! ### Parts -/

@[simp] theorem splitAt_ne_nil (separator text : List Char) : splitAt separator text ≠ [] := by
  unfold splitAt
  split
  · exact List.cons_ne_nil _ _
  · split
    · exact List.cons_ne_nil _ _
    · exact List.cons_ne_nil _ _

/-- More parts behind a first one are put behind what stands between them. -/
theorem intercalate_cons {between first : List Char} {parts : List (List Char)}
    (h : parts ≠ []) :
    between.intercalate (first :: parts) = first ++ between ++ between.intercalate parts := by
  obtain ⟨second, rest, rfl⟩ := List.exists_cons_of_ne_nil h
  exact List.intercalate_cons_cons

/-- Put together with the separator, the parts of a text give the text back, by induction on what
is left of it behind the first occurrence. -/
@[simp] theorem intercalate_splitAt (separator text : List Char) :
    separator.intercalate (splitAt separator text) = text := by
  fun_induction splitAt separator text with
  | case1 text hnone => exact List.intercalate_singleton
  | case2 text before after hcut hless ih =>
    rw [intercalate_cons (splitAt_ne_nil _ _), ih, List.append_assoc]
    exact (cutAt?_eq_some_iff.mp hcut).eq.symm
  | case3 text before after hcut hless =>
    rw [intercalate_cons (List.cons_ne_nil _ _), List.intercalate_singleton, List.append_assoc]
    exact (cutAt?_eq_some_iff.mp hcut).eq.symm

/-- Replacing is putting the parts together with something else. -/
theorem replaceAll_eq (part replacement text : List Char) :
    replaceAll part replacement text = replacement.intercalate (splitAt part text) := by
  fun_induction splitAt part text with
  | case1 text hnone =>
    rw [replaceAll, hnone, List.intercalate_singleton]
  | case2 text before after hcut hless ih =>
    rw [replaceAll, hcut, intercalate_cons (splitAt_ne_nil _ _), ← ih]
    exact if_pos hless
  | case3 text before after hcut hless =>
    rw [replaceAll, hcut, intercalate_cons (List.cons_ne_nil _ _), List.intercalate_singleton]
    exact if_neg hless

/-- There is more than one part exactly if the separator occurs. -/
theorem one_lt_length_splitAt (separator text : List Char) :
    1 < (splitAt separator text).length ↔ occursIn separator text = true := by
  rw [occursIn_eq]
  fun_cases splitAt separator text with
  | case1 hnone => simp [hnone]
  | case2 before after hcut hless =>
    simpa [hcut] using List.length_pos_iff.mpr (splitAt_ne_nil separator after)
  | case3 before after hcut hless => simp [hcut]

/-- With nothing between them, single characters are put together to the text they are from. -/
@[simp] theorem intercalate_singletons (text : List Char) :
    List.intercalate [] (text.map fun c => [c]) = text := by
  induction text with
  | nil => rfl
  | cons c rest ih =>
    by_cases hrest : rest = []
    · rw [hrest]
      rfl
    · rw [List.map_cons, intercalate_cons (by simpa using hrest), ih]
      rfl

end Text

namespace Builtin

/-- The parts that a text is split into. -/
def partsOf (s separator : String) : List Value :=
  if separator.isEmpty then s.toList.map .ofChar
  else (Text.splitAt separator.toList s.toList).map (.text ∘ String.ofList)

theorem split_eq (s separator : String) (line : Nat) :
    split (.text s) (.text separator) line = .ok (.array (partsOf s separator)) := by
  have hread : split (.text s) (.text separator) line =
      if separator.isEmpty then .ok (.array (s.toList.map .ofChar))
      else .ok (.array ((Text.splitAt separator.toList s.toList).map (.text ∘ String.ofList))) :=
    rfl
  rw [hread, partsOf, apply_ite Value.array, apply_ite Except.ok]

/-- Parts that are texts are joined to what their characters are put together to. -/
theorem join_texts (parts : List (List Char)) (separator : String) (line : Nat) :
    join (.array (parts.map (.text ∘ String.ofList))) (.text separator) line =
      .ok (.text (String.ofList (separator.toList.intercalate parts))) := by
  have hread : join (.array (parts.map (.text ∘ String.ofList))) (.text separator) line =
      .ok (.text (String.intercalate separator
        ((parts.map (Value.text ∘ String.ofList)).map Value.display))) := rfl
  have htexts :
      (parts.map (Value.text ∘ String.ofList)).map Value.display = parts.map String.ofList := by
    rw [List.map_map]
    exact List.map_congr_left fun part _ => by simp [Value.display]
  have hparts : (parts.map String.ofList).map String.toList = parts := by
    rw [List.map_map]
    exact (List.map_congr_left fun part _ => String.toList_ofList).trans (List.map_id _)
  rw [hread, htexts, ← String.ofList_toList (s := String.intercalate _ _),
    String.toList_intercalate, hparts]

theorem partsOf_of_empty {s separator : String} (h : separator.isEmpty = true) :
    partsOf s separator = (s.toList.map fun c => [c]).map (.text ∘ String.ofList) := by
  rw [partsOf, if_pos h, List.map_map]
  rfl

theorem partsOf_of_not_empty {s separator : String} (h : separator.isEmpty = false) :
    partsOf s separator = (Text.splitAt separator.toList s.toList).map (.text ∘ String.ofList) := by
  rw [partsOf, if_neg (by simp [h])]

/-- Joined with what it was split at, a text comes back. -/
theorem join_partsOf (s separator : String) (line : Nat) :
    join (.array (partsOf s separator)) (.text separator) line = .ok (.text s) := by
  cases hempty : separator.isEmpty with
  | true =>
    have hnone : separator.toList = [] := by
      rw [String.isEmpty_iff.mp hempty, String.toList_empty]
    rw [partsOf_of_empty hempty, join_texts, hnone, Text.intercalate_singletons,
      String.ofList_toList]
  | false =>
    rw [partsOf_of_not_empty hempty, join_texts, Text.intercalate_splitAt, String.ofList_toList]

/-- Joined with something else, what a text was split into gives the text in which that has
replaced what it was split at. -/
theorem replace_eq_join {part : String} (h : part.isEmpty = false) (s replacement : String)
    (line : Nat) : replace (.text s) (.text part) (.text replacement) line =
      join (.array (partsOf s part)) (.text replacement) line := by
  have hread : replace (.text s) (.text part) (.text replacement) line =
      if part.isEmpty then .ok (.text s)
      else .ok (.text
        (String.ofList (Text.replaceAll part.toList replacement.toList s.toList))) := rfl
  rw [hread, if_neg (h ▸ Bool.false_ne_true), partsOf_of_not_empty h, join_texts,
    Text.replaceAll_eq]

/-! ### Positions -/

/-- A position is told by its number, as far as there is one for it, and that there is none by
minus one. -/
theorem positionValue_spec (position : Option Nat) :
    ∃ found : Number, positionValue position = .number found ∧
      (found.raw = -Number.scale ↔ position = none) ∧
      ∀ i, position = some i → found = .ofCount i := by
  cases position with
  | none =>
    exact ⟨⟨-1000000, by decide, by decide⟩, rfl, ⟨fun _ => rfl, fun _ => rfl⟩, nofun⟩
  | some i =>
    refine ⟨.ofCount i, rfl, ⟨fun hraw => ?_, nofun⟩, fun j hj => by cases hj; rfl⟩
    have hle := Number.raw_ofCount_nonneg i
    rw [hraw] at hle
    exact absurd hle (by decide)

end Builtin

namespace Library

open Builtin

/-- Functions that take texts apart, put them together and look for one in another agree with each
other, and so do those that look for a value in an array. Where a text or value is found, that is
at its first occurrence, counted in characters although texts are searched by bytes. -/
theorem parts_and_occurrences_agree :
    (∀ s t r : String, s.length * Number.scale ≤ Number.maxRaw →
      ∃ (parts : List Value) (holds : Bool) (found : Number),
        text.Answers "split" [.text s, .text t] (.array parts) ∧
        text.Answers "join" [.array parts, .text t] (.text s) ∧
        text.Answers "contains" [.text s, .text t] (.boolean holds) ∧
        util.Answers "find" [.text s, .text t] (.number found) ∧
        (t ≠ "" → (1 < parts.length ↔ holds = true) ∧
          ∃ replaced, text.Answers "replace" [.text s, .text t, .text r] replaced ∧
            text.Answers "join" [.array parts, .text r] replaced) ∧
        (holds = true ↔ t.toList <:+: s.toList) ∧
        (holds = true ↔ found.raw ≠ -Number.scale) ∧
        (found.raw ≠ -Number.scale → ∃ before after,
          Text.FirstCut t.toList s.toList before after ∧
          found.raw = before.length * Number.scale ∧
          Text.byteIndexIn? (Text.bytesOf t) (Text.bytesOf s) =
            some (Text.utf8 before).length)) ∧
    ∀ (items : List Value) (needle : Value), ∃ (holds : Bool) (found : Number),
      util.Answers "has" [.array items, needle] (.boolean holds) ∧
      util.Answers "find" [.array items, needle] (.number found) ∧
      (holds = true ↔ found.raw ≠ -Number.scale) ∧
      (holds = true → ∃ i item, items[i]? = some item ∧ item.equal needle = true ∧
        (∀ earlier ∈ items.take i, earlier.equal needle = false) ∧
        found = .ofCount i ∧
        (items.length * Number.scale ≤ Number.maxRaw → found.raw = i * Number.scale)) := by
  refine ⟨fun s t r hlength => ?_, fun items needle => ?_⟩
  · obtain ⟨found, hfound, hnone, hsome⟩ := positionValue_spec (Text.indexIn? t.toList s.toList)
    have hholds : Text.occursIn t.toList s.toList = true ↔ found.raw ≠ -Number.scale := by
      rw [ne_eq, hnone, Text.indexIn?_eq_none_iff, not_not]
    refine ⟨partsOf s t, Text.occursIn t.toList s.toList, found, answers_binary rfl (split_eq s t),
      answers_binary rfl (join_partsOf s t), answers_binary rfl fun _ => rfl,
      answers_binary rfl fun _ => congrArg Except.ok hfound, fun ht => ?_, Text.occursIn_iff,
      hholds, fun hne => ?_⟩
    · have hsplit : t.isEmpty = false := by simpa using ht
      have hjoin (line : Nat) : join (.array (partsOf s t)) (.text r) line =
          .ok (.text (String.ofList (r.toList.intercalate (Text.splitAt t.toList s.toList)))) := by
        rw [partsOf_of_not_empty hsplit, join_texts]
      refine ⟨?_, _, answers_ternary rfl fun line => ?_, answers_binary rfl hjoin⟩
      · rw [partsOf_of_not_empty hsplit, List.length_map, Text.one_lt_length_splitAt]
      · rw [replace_eq_join hsplit, hjoin]
    · obtain ⟨i, hi⟩ := Option.ne_none_iff_exists'.mp (mt hnone.mpr hne)
      obtain ⟨before, after, hcut, rfl⟩ := Text.indexIn?_eq_some hi
      have hle : before.length ≤ s.length := by
        rw [← String.length_toList, hcut.eq, List.length_append]
        exact Nat.le_add_right _ _
      refine ⟨before, after, hcut, ?_, hcut.byteIndexIn?⟩
      rw [hsome _ hi]
      exact Number.raw_ofCount (Number.count_mono hle hlength)
  · obtain ⟨found, hfound, hnone, hsome⟩ := positionValue_spec (items.findIdx? (·.equal needle))
    refine ⟨items.any (·.equal needle), found, answers_binary rfl fun _ => rfl,
      answers_binary rfl fun _ => congrArg Except.ok hfound, ?_, fun hholds => ?_⟩
    · rw [ne_eq, hnone, ← List.findIdx?_isSome, Option.isSome_iff_ne_none]
    · rw [← List.findIdx?_isSome] at hholds
      obtain ⟨i, hi⟩ := Option.isSome_iff_exists.mp hholds
      obtain ⟨hlt, hequal, hfirst⟩ := List.findIdx?_eq_some_iff_getElem.mp hi
      refine ⟨i, items[i], List.getElem?_eq_getElem hlt, hequal, fun earlier hearlier => ?_,
        hsome i hi, fun hlength => ?_⟩
      · obtain ⟨j, hj, rfl⟩ := List.mem_take_iff_getElem.mp hearlier
        have hji : j < i := by omega
        simpa using hfirst j hji
      · rw [hsome i hi]
        exact Number.raw_ofCount (Number.count_mono hlt.le hlength)

/-- A separator of two characters that overlaps itself in a text of two-byte characters is found
behind the first character, and so cuts off the last one. An element that an array has twice is
found at the first place. -/
theorem overlapping_occurrences_agree :
    (∃ (parts : List Value) (found : Number),
      text.Answers "split" [.text "xααα", .text "αα"] (.array parts) ∧
      text.Answers "join" [.array parts, .text "αα"] (.text "xααα") ∧ 1 < parts.length ∧
      util.Answers "find" [.text "xααα", .text "αα"] (.number found) ∧
      ∃ before after, Text.FirstCut "αα".toList "xααα".toList before after ∧
        found.raw = before.length * Number.scale) ∧
    ∃ (found : Number) (i : Nat),
      util.Answers "find" [.array [.nothing, .text "α", .text "α"], .text "α"] (.number found) ∧
      (∀ earlier ∈ [Value.nothing, .text "α", .text "α"].take i,
        earlier.equal (.text "α") = false) ∧
      found.raw = i * Number.scale := by
  constructor
  · obtain ⟨parts, holds, found, hsplit, hjoin, -, hfind, hparts, hoccurs, hfound, hcut⟩ :=
      parts_and_occurrences_agree.1 "xααα" "αα" "β" (by decide)
    have hholds : holds = true := hoccurs.mpr ⟨['x'], ['α'], by decide⟩
    obtain ⟨before, after, hfirst, hraw, -⟩ := hcut (hfound.mp hholds)
    exact ⟨parts, found, hsplit, hjoin, (hparts (by decide)).1.mpr hholds, hfind, before, after,
      hfirst, hraw⟩
  · obtain ⟨holds, found, hhas, hfind, -, hfirst⟩ :=
      parts_and_occurrences_agree.2 [.nothing, .text "α", .text "α"] (.text "α")
    have hanswer : util.Answers "has" [.array [.nothing, .text "α", .text "α"], .text "α"]
        (.boolean true) := answers_binary rfl fun _ => by simp [has, Value.equal]
    have hholds : holds = true := Value.boolean.inj (hhas.unique hanswer)
    obtain ⟨i, item, -, -, hearlier, -, hraw⟩ := hfirst hholds
    exact ⟨found, i, hfind, hearlier, hraw (by decide)⟩

end Library

end DecimalScript
