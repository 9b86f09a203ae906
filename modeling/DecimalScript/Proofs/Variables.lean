import DecimalScript.Proofs.Scopes

/-!
# Reading variables after writing them

Assigning a variable changes one binding: the newest of its name, or a new one if there is none.
The variable reads as what was assigned, and all others as before.
-/

namespace DecimalScript

/-- Between two environments one name was assigned. Its newest binding holds the new value in place
of the old one; a name without bindings was given one, and counts as having been an empty object. -/
inductive Environment.Assigned (name : String) (old new : Value) :
    Environment → Environment → Prop
  /-- The newest binding of the name was written. -/
  | written {newer older : List Binding} {scopes : List Nat}
      (hnewest : name ∉ newer.map (·.name)) :
      Assigned name old new ⟨newer ++ ⟨name, old⟩ :: older, scopes⟩
        ⟨newer ++ ⟨name, new⟩ :: older, scopes⟩
  /-- A binding was made. -/
  | made {env : Environment} (hold : old = .object []) (hfree : env.binds name = false) :
      Assigned name old new env (env.define name new)

/-- The newest binding of a name, if there is one, divides the others. -/
theorem exists_newest {name : String} {value : Value} {bindings : List Binding}
    (h : (bindings.find? (·.name == name)).map (·.value) = some value) :
    ∃ newer older, bindings = newer ++ ⟨name, value⟩ :: older ∧ name ∉ newer.map (·.name) := by
  obtain ⟨b, hfound, rfl⟩ := Option.map_eq_some_iff.mp h
  obtain ⟨hname, newer, older, hsplit, hnewer⟩ := List.find?_eq_some_iff_append.mp hfound
  refine ⟨newer, older, ?_, fun hmem => ?_⟩
  · rw [hsplit, ← eq_of_beq hname]
  · obtain ⟨other, hother, heq⟩ := List.mem_map.mp hmem
    have hdiffers := hnewer other hother
    simp [heq] at hdiffers

namespace Environment

variable {env : Environment} {name other : String} {value : Value}

/-- A name is bound if it means something. -/
theorem binds_eq_isSome (env : Environment) (name : String) :
    env.binds name = (env.get? name).isSome := by
  unfold binds get?
  rw [Option.isSome_map, Bool.eq_iff_iff, List.find?_isSome, List.any_eq_true]

theorem get?_eq_none (h : env.binds name = false) : env.get? name = none := by
  rw [binds_eq_isSome] at h
  exact Option.isNone_iff_eq_none.mp (by simpa using h)

theorem binds_of_get?_eq_none (h : env.get? name = none) : env.binds name = false := by
  rw [binds_eq_isSome, h]
  rfl

theorem binds_of_get? (h : env.get? name = some value) : env.binds name = true := by
  rw [binds_eq_isSome, h]
  rfl

@[simp] theorem get?_define_self (env : Environment) (name : String) (value : Value) :
    (env.define name value).get? name = some value := by
  simp [get?, define]

theorem get?_define_of_ne (h : other ≠ name) (env : Environment) (value : Value) :
    (env.define name value).get? other = env.get? other := by
  simp [get?, define, h.symm]

/-- Writing a name that is bound gives it the value. -/
theorem get?_write_self (h : env.binds name = true) (value : Value) :
    (env.write name value).get? name = some value := by
  rw [get?, write, find?_rebind h]
  rfl

/-- Writing a name leaves the others alone. -/
theorem get?_write_of_ne (h : other ≠ name) (env : Environment) (value : Value) :
    (env.write name value).get? other = env.get? other := by
  obtain ⟨bindings, scopes⟩ := env
  simp only [get?, write]
  induction bindings with
  | nil => rfl
  | cons b rest ih =>
    by_cases hb : b.name = name
    · have hother : ¬ name = other := fun heq => h heq.symm
      simp [rebind, hb, hother]
    · by_cases ho : b.name = other
      · simp [rebind, ho, h]
      · simpa [rebind, hb, ho] using ih

/-- Writing the value that a name has changes nothing. -/
theorem write_of_get? (h : env.get? name = some value) : env.write name value = env := by
  obtain ⟨bindings, scopes⟩ := env
  obtain ⟨newer, older, rfl, hnewest⟩ := exists_newest h
  simp [write, rebind_append_of_not_mem hnewest, rebind]

/-- What a name is written last counts. -/
@[simp] theorem write_define (env : Environment) (name : String) (first last : Value) :
    (env.define name first).write name last = env.define name last := by
  simp [write, define, rebind]

/-- A name means what it was assigned. -/
@[simp] theorem get?_assign_self (env : Environment) (name : String) (value : Value) :
    (env.assign name value).get? name = some value := by
  unfold assign
  split
  · rename_i hbound
    exact get?_write_self hbound value
  · exact get?_define_self env name value

/-- Assigning one name leaves what the others mean. -/
theorem get?_assign_of_ne (h : other ≠ name) (env : Environment) (value : Value) :
    (env.assign name value).get? other = env.get? other := by
  unfold assign
  split
  · exact get?_write_of_ne h env value
  · exact get?_define_of_ne h env value

/-- Assigning a name binds it, and no other name. -/
theorem binds_assign (env : Environment) (name other : String) (value : Value) :
    (env.assign name value).binds other = (other == name || env.binds other) := by
  by_cases h : other = name
  · rw [binds_eq_isSome, h, get?_assign_self]
    simp
  · rw [binds_eq_isSome, get?_assign_of_ne h, ← binds_eq_isSome]
    simp [h]

/-- Assigning the value that a name has changes nothing. -/
theorem assign_of_get? (h : env.get? name = some value) : env.assign name value = env := by
  rw [assign, if_pos (binds_of_get? h), write_of_get? h]

/-- Assigning a name that is bound writes it. -/
theorem assigned_of_get? {old : Value} (h : env.get? name = some old) (new : Value) :
    Assigned name old new env (env.assign name new) := by
  rw [assign, if_pos (binds_of_get? h)]
  obtain ⟨bindings, scopes⟩ := env
  obtain ⟨newer, older, rfl, hnewest⟩ := exists_newest h
  simp only [write, rebind_append_of_not_mem hnewest, rebind, beq_self_eq_true, if_true]
  exact .written hnewest

/-- Assigning a name that is free makes a binding. -/
theorem assigned_of_free (h : env.binds name = false) (new : Value) :
    Assigned name (.object []) new env (env.assign name new) := by
  rw [assign, if_neg (by simp [h])]
  exact .made rfl h

end Environment

end DecimalScript
