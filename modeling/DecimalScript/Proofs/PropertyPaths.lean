import DecimalScript.Value.Path

/-!
# Writing at the end of a path of properties

Writing can fail only at a value that is no object, and an object that had to be made on the way is
one. So nothing was made when a write fails, and writing in place leaves the same behind as building
a new value. Where a write succeeds, reading gives back what was written, and all paths that part
from the written one lead where they led before.
-/

namespace DecimalScript

namespace Value

variable {target changed new inner : Value} {fields : List (String × Value)} {name : String}
  {path : List String} {line : Nat}

/-- A property that an object has is followed. -/
theorem follow_of_get? (h : NameTable.get? fields name = some inner) :
    (object fields).follow line (name :: path) = inner.follow line path := by
  simp only [follow, member, h]

/-- A property that an object lacks leads nowhere. -/
theorem follow_of_missing (h : NameTable.get? fields name = none) :
    (object fields).follow line (name :: path) = .error (.noProperty name line) := by
  simp only [follow, member, h]

/-- What a write does to an object: it writes below the first property of the path, which counts as
an empty object if it is missing. -/
theorem setPath_object (fields : List (String × Value)) (name : String) (path : List String)
    (new : Value) :
    (object fields).setPath (name :: path) new =
      (((NameTable.get? fields name).getD (object [])).setPath path new).map
        fun inner => object (NameTable.set fields name inner) := by
  rw [setPath]
  cases ((NameTable.get? fields name).getD (object [])).setPath path new with
  | ok inner => rfl
  | error fault => rfl

/-- A write below a property succeeds on objects only. -/
theorem setPath_cons_ok (h : target.setPath (name :: path) new = .ok changed) :
    ∃ fields inner, target = object fields ∧
      ((NameTable.get? fields name).getD (object [])).setPath path new = .ok inner ∧
      changed = object (NameTable.set fields name inner) := by
  cases target with
  | object fields =>
    rw [setPath_object] at h
    cases hinner : ((NameTable.get? fields name).getD (object [])).setPath path new with
    | ok inner =>
      rw [hinner] at h
      cases h
      exact ⟨fields, inner, rfl, hinner, rfl⟩
    | error fault =>
      rw [hinner] at h
      cases h
  | number _ | text _ | boolean _ | array _ | lambda _ _ _ | nothing => cases h

/-- Any path can be written in an empty object. -/
theorem exists_setPath_empty (path : List String) (new : Value) :
    ∃ changed, (object []).setPath path new = .ok changed := by
  induction path with
  | nil => exact ⟨new, rfl⟩
  | cons name rest ih =>
    obtain ⟨inner, hinner⟩ := ih
    have hmissing : (NameTable.get? ([] : NameTable Value) name).getD (object []) = object [] := rfl
    rw [setPath_object, hmissing, hinner]
    exact ⟨_, rfl⟩

/-- From an empty object no property leads anywhere. -/
theorem toOption_follow_empty (h : path ≠ []) :
    ((object []).follow line path).toOption = none := by
  cases path with
  | nil => exact absurd rfl h
  | cons name rest =>
    rw [follow_of_missing rfl]
    rfl

/-- A write that succeeds is read back and touches nothing that other paths lead to, by induction on
the path: the first property of the path gets the value in which the rest of it was written. -/
theorem writtenAt_of_setPath (h : target.setPath path new = .ok changed) :
    target.WrittenAt path new changed := by
  induction path generalizing target changed with
  | nil =>
    cases h
    exact {
      written := fun _ => rfl
      apart := fun _ other _ hpast => absurd (List.nil_prefix (l := other)) hpast
      order := fun _ way _ hway hend => absurd (List.prefix_nil.mp hway) hend }
  | cons name rest ih =>
    obtain ⟨fields, inner, rfl, hinner, rfl⟩ := setPath_cons_ok h
    have hbelow := ih hinner
    have hfound : NameTable.get? (NameTable.set fields name inner) name = some inner :=
      NameTable.get?_set_self fields name inner
    refine ⟨fun line => ?_, fun line other hahead hpast => ?_, fun line way old hway hend hold => ?_⟩
    · rw [follow_of_get? hfound]
      exact hbelow.written line
    · cases other with
      | nil => exact absurd List.nil_prefix hahead
      | cons first others =>
        by_cases hname : first = name
        · subst hname
          rw [List.prefix_cons_inj] at hahead hpast
          rw [follow_of_get? hfound, hbelow.apart line others hahead hpast]
          cases hget : NameTable.get? fields first with
          | some old =>
            rw [follow_of_get? hget]
            rfl
          | none =>
            -- The rest of the path was written in an empty object, where nothing was before.
            have hlonger : others ≠ [] := fun hnil => hahead (hnil ▸ List.nil_prefix)
            rw [follow_of_missing hget]
            exact toOption_follow_empty hlonger
        · have hother : NameTable.get? (NameTable.set fields name inner) first =
              NameTable.get? fields first := NameTable.get?_set_of_ne fields hname inner
          cases hget : NameTable.get? fields first with
          | some old => rw [follow_of_get? (hother.trans hget), follow_of_get? hget]
          | none => rw [follow_of_missing (hother.trans hget), follow_of_missing hget]
    · cases way with
      | nil =>
        cases hold
        exact ⟨_, rfl, NameTable.names_prefix_set _ _ _⟩
      | cons first others =>
        obtain ⟨rfl, hothers⟩ := List.cons_prefix_cons.mp hway
        have hshort : others ≠ rest := fun heq => hend (heq ▸ rfl)
        cases hget : NameTable.get? fields first with
        | none =>
          rw [follow_of_missing hget] at hold
          cases hold
        | some kept =>
          rw [follow_of_get? hget] at hold
          rw [follow_of_get? hfound]
          rw [hget] at hbelow
          exact hbelow.order line others old hothers hshort hold

/-- Writing what a path leads to already changes nothing. -/
theorem setPath_of_written (h : target.setPath path new = .ok changed) :
    changed.setPath path new = .ok changed := by
  induction path generalizing target changed with
  | nil =>
    cases h
    simp only [setPath]
  | cons name rest ih =>
    obtain ⟨fields, inner, rfl, hinner, rfl⟩ := setPath_cons_ok h
    rw [setPath_object, NameTable.get?_set_self, Option.getD_some, ih hinner]
    show Except.ok (object (NameTable.set (NameTable.set fields name inner) name inner)) = _
    rw [NameTable.set_set]

/-- Writing in place comes to the same as building a new value, and when it fails nothing has been
changed: what was missing on the way is an empty object, in which any path can be written. -/
theorem assignInPlace_eq (target : Value) (path : List String) (new : Value) :
    target.assignInPlace path new =
      match target.setPath path new with
      | .ok changed => (changed, none)
      | .error fault => (target, some fault) := by
  induction path generalizing target with
  | nil => simp only [assignInPlace, setPath]
  | cons name rest ih =>
    cases target with
    | object fields =>
      rw [assignInPlace, setPath_object]
      cases hget : NameTable.get? fields name with
      | some old =>
        rw [Option.isSome_some, if_pos rfl, hget, Option.getD_some, Option.getD_some, ih old]
        cases old.setPath rest new with
        | ok inner => rfl
        | error fault =>
          show (object (NameTable.set fields name old), some fault) = _
          rw [NameTable.set_of_get? hget]
          rfl
      | none =>
        obtain ⟨inner, hinner⟩ := exists_setPath_empty rest new
        rw [Option.isSome_none, if_neg Bool.false_ne_true, NameTable.get?_set_self,
          Option.getD_some, Option.getD_none, ih (object []), hinner]
        show (object (NameTable.set (NameTable.set fields name (object [])) name inner), none) = _
        rw [NameTable.set_set]
        rfl
    | number _ | text _ | boolean _ | array _ | lambda _ _ _ | nothing => rfl

end Value

end DecimalScript
