/-!
# Tables of named things in order

A table is a list of name and entry in the order of first insertion. Setting a name
that is present replaces its first entry in place, so no name is added twice and the
order of the others is kept. Object fields, functions and modules are kept this way.
-/

namespace DecimalScript

/-- Entries by name, in order of first insertion. -/
abbrev NameTable (α : Type) := List (String × α)

namespace NameTable

variable {α : Type}

/-- The first entry of a name. -/
def get? (table : NameTable α) (name : String) : Option α := List.lookup name table

/-- The table with an entry for a name, in place of the first one or at the end. -/
def set (table : NameTable α) (name : String) (entry : α) : NameTable α :=
  match table with
  | [] => [(name, entry)]
  | (key, old) :: rest =>
    if key == name then (key, entry) :: rest else (key, old) :: set rest name entry

/-- The names of a table in order. -/
def names (table : NameTable α) : List String := table.map (·.1)

/-- What is found is in the table. -/
theorem mem_of_get? {table : NameTable α} {name : String} {entry : α}
    (h : table.get? name = some entry) : (name, entry) ∈ table := by
  induction table with
  | nil => cases h
  | cons head rest ih =>
    obtain ⟨key, old⟩ := head
    simp only [get?, List.lookup_cons] at h
    split at h
    · rename_i hkey
      rw [eq_of_beq hkey]
      cases h
      exact List.mem_cons_self
    · exact List.mem_cons_of_mem _ (ih h)

/-- An entry after setting is an old one or the new one. -/
theorem mem_of_mem_set {table : NameTable α} {name : String} {entry : α} {found : String × α}
    (h : found ∈ table.set name entry) : found ∈ table ∨ found.2 = entry := by
  induction table with
  | nil =>
    rw [List.mem_singleton.mp h]
    exact .inr rfl
  | cons head rest ih =>
    obtain ⟨key, old⟩ := head
    unfold set at h
    split at h
    · rcases List.mem_cons.mp h with rfl | hrest
      · exact .inr rfl
      · exact .inl (List.mem_cons_of_mem _ hrest)
    · rcases List.mem_cons.mp h with rfl | hrest
      · exact .inl List.mem_cons_self
      · exact (ih hrest).imp_left (List.mem_cons_of_mem _)

/-- What was set is found. -/
@[simp] theorem get?_set_self (table : NameTable α) (name : String) (entry : α) :
    (table.set name entry).get? name = some entry := by
  induction table with
  | nil => simp [set, get?]
  | cons head rest ih =>
    obtain ⟨key, old⟩ := head
    by_cases h : key = name
    · subst h
      simp [set, get?]
    · have h' : name ≠ key := fun e => h e.symm
      simpa [set, get?, h, List.lookup_cons, beq_false_of_ne h'] using ih

/-- Setting one name leaves the entries of the others. -/
theorem get?_set_of_ne (table : NameTable α) {name other : String} (h : other ≠ name)
    (entry : α) : (table.set name entry).get? other = table.get? other := by
  induction table with
  | nil => simp [set, get?, List.lookup_cons, beq_false_of_ne h]
  | cons head rest ih =>
    obtain ⟨key, old⟩ := head
    by_cases hk : key = name
    · subst hk
      simp [set, get?, List.lookup_cons, beq_false_of_ne h]
    · by_cases ho : other = key
      · subst ho
        simp [set, get?, hk]
      · simpa [set, get?, hk, List.lookup_cons, beq_false_of_ne ho] using ih

/-- After setting a name there is an entry for it and for the names that had one. -/
theorem isSome_get?_set (table : NameTable α) (name other : String) (entry : α) :
    ((table.set name entry).get? other).isSome ↔ other = name ∨ (table.get? other).isSome := by
  by_cases h : other = name
  · subst h
    simp
  · rw [get?_set_of_ne table h]
    simp [h]

/-- Setting keeps the names, and adds the name at the end if it is new. -/
theorem names_set (table : NameTable α) (name : String) (entry : α) :
    (table.set name entry).names =
      if name ∈ table.names then table.names else table.names ++ [name] := by
  induction table with
  | nil => simp [set, names]
  | cons head rest ih =>
    obtain ⟨key, old⟩ := head
    by_cases h : key = name
    · subst h
      simp [set, names]
    · have h' : name ≠ key := fun e => h e.symm
      simp only [names] at ih
      by_cases hm : name ∈ rest.map (·.1)
      · simp_all [set, names]
      · simp_all [set, names]

/-- The names there were stay in their order when a name is set. -/
theorem names_prefix_set (table : NameTable α) (name : String) (entry : α) :
    table.names <+: (table.set name entry).names := by
  rw [names_set]
  split
  · exact List.prefix_refl _
  · exact List.prefix_append _ _

/-- Setting a name to what is found there changes nothing. -/
theorem set_of_get? {table : NameTable α} {name : String} {entry : α}
    (h : table.get? name = some entry) : table.set name entry = table := by
  induction table with
  | nil => cases h
  | cons head rest ih =>
    obtain ⟨key, old⟩ := head
    by_cases hkey : key = name
    · subst hkey
      simp only [get?, List.lookup_cons, beq_self_eq_true, Option.some.injEq] at h
      simp [set, h]
    · have hne : name ≠ key := fun heq => hkey heq.symm
      simp only [get?, List.lookup_cons, beq_false_of_ne hne] at h
      simp [set, hkey, ih h]

/-- What a name is set to last counts. -/
@[simp] theorem set_set (table : NameTable α) (name : String) (first last : α) :
    (table.set name first).set name last = table.set name last := by
  induction table with
  | nil => simp [set]
  | cons head rest ih =>
    obtain ⟨key, old⟩ := head
    by_cases hkey : key = name
    · simp [set, hkey]
    · simp [set, hkey, ih]

/-- Setting names no entry twice that was not named twice before. -/
theorem nodup_set {table : NameTable α} (h : table.names.Nodup) (name : String) (entry : α) :
    (table.set name entry).names.Nodup := by
  rw [names_set]
  by_cases hmem : name ∈ table.names
  · rw [if_pos hmem]
    exact h
  · rw [if_neg hmem, List.nodup_append]
    refine ⟨h, by simp, fun other hother added hadded => ?_⟩
    rw [List.mem_singleton.mp hadded]
    exact ne_of_mem_of_not_mem hother hmem

/-- Where no two entries have one name, every entry is found by its name. -/
theorem get?_eq_some_iff {table : NameTable α} (h : table.names.Nodup) {name : String}
    {entry : α} : table.get? name = some entry ↔ (name, entry) ∈ table := by
  refine ⟨mem_of_get?, fun hmem => ?_⟩
  induction table with
  | nil => cases hmem
  | cons head rest ih =>
    obtain ⟨key, first⟩ := head
    obtain ⟨hnew, hrest⟩ := List.nodup_cons.mp h
    rcases List.mem_cons.mp hmem with hhead | hlater
    · cases hhead
      simp [get?]
    · have hname : name ∈ names rest := List.mem_map_of_mem hlater
      have hother : name ≠ key := ne_of_mem_of_not_mem hname hnew
      have hfound := ih hrest hlater
      simpa [get?, List.lookup_cons, beq_false_of_ne hother] using hfound

end NameTable

end DecimalScript
