import DecimalScript.Environment

/-!
# Names and scopes of environments

Writing keeps the list of names, defining puts a name in front of it. Closing a scope and
restoring a mark drop exactly the names that were put in front since, provided that
nothing else happened to the names and scopes.
-/

namespace DecimalScript

/-- The oldest entries are the end of the list. -/
theorem keepOldest_suffix {α : Type} (count : Nat) (entries : List α) :
    keepOldest count entries <:+ entries :=
  List.drop_suffix _ _

/-- The oldest entries under a map. -/
theorem map_keepOldest {α β : Type} (f : α → β) (count : Nat) (entries : List α) :
    (keepOldest count entries).map f = keepOldest count (entries.map f) := by
  simp only [keepOldest, List.map_drop, List.length_map]

/-- As many of the oldest entries as there were are the entries there were. -/
theorem keepOldest_of_suffix {α : Type} {old new : List α} (h : old <:+ new) :
    keepOldest old.length new = old := by
  obtain ⟨added, rfl⟩ := h
  simp [keepOldest]

/-- The oldest entries of two lists joined, if they are all in the second. -/
theorem keepOldest_append_of_le {α : Type} {count : Nat} {entries rest : List α}
    (h : count ≤ rest.length) : keepOldest count (entries ++ rest) = keepOldest count rest := by
  have hcount : (entries ++ rest).length - count = entries.length + (rest.length - count) := by
    simp
    omega
  unfold keepOldest
  rw [hcount, List.drop_append]
  simp

/-- The oldest entries of two lists joined, if the second is kept whole. -/
theorem keepOldest_append {α : Type} (count : Nat) (entries rest : List α) :
    keepOldest (count + rest.length) (entries ++ rest) = keepOldest count entries ++ rest := by
  have hcount : (entries ++ rest).length - (count + rest.length) = entries.length - count := by
    simp
    omega
  unfold keepOldest
  rw [hcount, List.drop_append_of_le_length (Nat.sub_le _ _)]

/-- As many of the oldest entries as asked for, if there are so many. -/
theorem length_keepOldest {α : Type} {count : Nat} {entries : List α} (h : count ≤ entries.length) :
    (keepOldest count entries).length = count := by
  simp [keepOldest]
  omega

/-- Rebinding a name keeps all names. -/
theorem names_rebind (name : String) (value : Value) (bindings : List Binding) :
    (rebind name value bindings).map (·.name) = bindings.map (·.name) := by
  induction bindings with
  | nil => rfl
  | cons b rest ih =>
    unfold rebind
    split
    · rfl
    · rw [List.map_cons, List.map_cons, ih]

/-- Rebinding a name keeps the number of bindings. -/
@[simp] theorem length_rebind (name : String) (value : Value) (bindings : List Binding) :
    (rebind name value bindings).length = bindings.length := by
  have h := congrArg List.length (names_rebind name value bindings)
  simpa using h

/-- A name that newer bindings have is rebound among them. -/
theorem rebind_append_of_mem {name : String} {value : Value} {newer older : List Binding}
    (h : name ∈ newer.map (·.name)) :
    rebind name value (newer ++ older) = rebind name value newer ++ older := by
  induction newer with
  | nil => cases h
  | cons b others ih =>
    by_cases hb : b.name = name
    · simp [rebind, hb]
    · have hothers : name ∈ others.map (·.name) := by
        rcases List.mem_cons.mp h with hhead | hlater
        · exact absurd hhead.symm hb
        · exact hlater
      simp [rebind, hb, ih hothers]

/-- A name that no newer binding has is rebound among the older ones. -/
theorem rebind_append_of_not_mem {name : String} {value : Value} {newer older : List Binding}
    (h : name ∉ newer.map (·.name)) :
    rebind name value (newer ++ older) = newer ++ rebind name value older := by
  induction newer with
  | nil => rfl
  | cons b others ih =>
    have hb : b.name ≠ name := fun hhead => h (hhead ▸ List.mem_cons_self)
    have hothers : name ∉ others.map (·.name) := fun hlater => h (List.mem_cons_of_mem _ hlater)
    simp [rebind, hb, ih hothers]

/-- A binding after rebinding is an old one or holds the new value. -/
theorem mem_rebind {name : String} {value : Value} {bindings : List Binding} {b : Binding}
    (h : b ∈ rebind name value bindings) : b ∈ bindings ∨ b.value = value := by
  induction bindings with
  | nil => cases h
  | cons first rest ih =>
    unfold rebind at h
    split at h
    · rcases List.mem_cons.mp h with rfl | hrest
      · exact .inr rfl
      · exact .inl (List.mem_cons_of_mem _ hrest)
    · rcases List.mem_cons.mp h with rfl | hrest
      · exact .inl List.mem_cons_self
      · exact (ih hrest).imp_left (List.mem_cons_of_mem _)

namespace Environment

theorem size_eq_length_names (env : Environment) : env.size = env.names.length :=
  (List.length_map _).symm

/-- The names that are bound are those of the bindings. -/
theorem binds_iff {env : Environment} {name : String} :
    env.binds name = true ↔ name ∈ env.names := by
  simp [binds, names]

/-- A variable has the value that it was written last, if it exists. -/
theorem find?_rebind {name : String} {value : Value} {bindings : List Binding}
    (h : bindings.any (·.name == name) = true) :
    (rebind name value bindings).find? (·.name == name) = some ⟨name, value⟩ := by
  induction bindings with
  | nil => cases h
  | cons first rest ih =>
    unfold rebind
    by_cases hfirst : (first.name == name) = true
    · have hname := eq_of_beq hfirst
      simp [hname]
    · rw [List.any_cons, Bool.or_eq_true] at h
      have hrest := ih (h.resolve_left hfirst)
      rw [if_neg hfirst, List.find?_cons, Bool.eq_false_iff.mpr hfirst]
      exact hrest

/-- What a name means is the value of a binding. -/
theorem exists_of_get? {env : Environment} {name : String} {value : Value}
    (h : env.get? name = some value) : ∃ b ∈ env.bindings, b.value = value := by
  obtain ⟨b, hb, hvalue⟩ := Option.map_eq_some_iff.mp h
  exact ⟨b, List.mem_of_find?_eq_some hb, hvalue⟩

/-- Writing keeps the names. -/
@[simp] theorem names_write (env : Environment) (name : String) (value : Value) :
    (env.write name value).names = env.names :=
  names_rebind name value env.bindings

/-- Defining puts a name in front. -/
@[simp] theorem names_define (env : Environment) (name : String) (value : Value) :
    (env.define name value).names = name :: env.names :=
  rfl

/-- A name is put in front of the others or the names stay. -/
theorem names_suffix {env changed : Environment} {name : String} {value : Value}
    (h : changed = env.define name value ∨ changed = env.write name value) :
    env.names <:+ changed.names := by
  rcases h with rfl | rfl
  · exact List.suffix_cons name env.names
  · exact names_write env name value ▸ List.suffix_refl _

/-- Defining and writing leave the scopes alone. -/
theorem scopes_eq {env changed : Environment} {name : String} {value : Value}
    (h : changed = env.define name value ∨ changed = env.write name value) :
    changed.scopes = env.scopes := by
  rcases h with rfl | rfl <;> rfl

/-- A binding after defining or writing is an old one or holds the new value. -/
theorem mem_changed {env changed : Environment} {name : String} {value : Value}
    (h : changed = env.define name value ∨ changed = env.write name value) {b : Binding}
    (hb : b ∈ changed.bindings) : b ∈ env.bindings ∨ b.value = value := by
  rcases h with rfl | rfl
  · rcases List.mem_cons.mp hb with rfl | hold
    · exact .inr rfl
    · exact .inl hold
  · exact mem_rebind hb

/-- Restoring a mark drops the names that are newer. -/
theorem names_restore {env after : Environment} (h : env.names <:+ after.names) :
    (after.restore env.mark).names = env.names := by
  have hkept := keepOldest_of_suffix h
  rw [← size_eq_length_names] at hkept
  exact (map_keepOldest _ _ _).trans hkept

/-- Restoring a mark leaves scopes alone that are the same. -/
theorem scopes_restore {env after : Environment} (h : after.scopes = env.scopes) :
    (after.restore env.mark).scopes = env.scopes := by
  show keepOldest env.scopes.length after.scopes = env.scopes
  exact keepOldest_of_suffix (h ▸ List.suffix_refl _)

/-- Restoring a mark makes no binding. -/
theorem mem_restore {after : Environment} {mark : Mark} {b : Binding}
    (h : b ∈ (after.restore mark).bindings) : b ∈ after.bindings :=
  (keepOldest_suffix _ _).subset h

/-- Closing a scope leaves as many bindings as there were when it was opened. -/
theorem popScope_of_scopes {env : Environment} {count : Nat} {rest : List Nat}
    (h : env.scopes = count :: rest) :
    env.popScope? = some ⟨keepOldest count env.bindings, rest⟩ := by
  unfold popScope?
  rw [h]

/-- A scope that was opened can be closed again, which drops the names that are newer. -/
theorem popScope_of_pushed {env after : Environment} (hscopes : after.scopes = env.pushScope.scopes)
    (hnames : env.names <:+ after.names) :
    ∃ closed, after.popScope? = some closed ∧ closed.scopes = env.scopes ∧
      closed.names = env.names ∧ ∀ b ∈ closed.bindings, b ∈ after.bindings := by
  have hkept := keepOldest_of_suffix hnames
  rw [← size_eq_length_names] at hkept
  exact ⟨⟨keepOldest env.size after.bindings, env.scopes⟩, popScope_of_scopes hscopes, rfl,
    (map_keepOldest _ _ _).trans hkept, fun b hb => (keepOldest_suffix _ _).subset hb⟩

/-- Binding parameters puts names in front and opens no scope. -/
theorem defineAll_spec (env : Environment) (names : List String) (values : List Value) :
    (env.defineAll names values).scopes = env.scopes ∧
      env.names <:+ (env.defineAll names values).names ∧
      ∀ b ∈ (env.defineAll names values).bindings, b ∈ env.bindings ∨ b.value ∈ values := by
  induction names generalizing env values with
  | nil => exact ⟨rfl, List.suffix_refl _, fun b hb => .inl hb⟩
  | cons name names ih =>
    cases values with
    | nil => exact ⟨rfl, List.suffix_refl _, fun b hb => .inl hb⟩
    | cons value values =>
      obtain ⟨hscopes, hnames, hbindings⟩ := ih (env.define name value) values
      refine ⟨hscopes, (List.suffix_cons name env.names).trans hnames, fun b hb => ?_⟩
      rcases hbindings b hb with hold | hnew
      · rcases List.mem_cons.mp hold with rfl | hold
        · exact .inr List.mem_cons_self
        · exact .inl hold
      · exact .inr (List.mem_cons_of_mem _ hnew)

/-- Inside a scope for parameters, the open scopes are those around it and this one. -/
theorem scopes_opened (env : Environment) (params : List String) (values : List Value) :
    (env.pushScope.defineAll params values).scopes = env.size :: env.scopes :=
  (defineAll_spec env.pushScope params values).1

end Environment

end DecimalScript
