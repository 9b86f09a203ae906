import DecimalScript.Value.Basic

/-!
# Parts of values

The parts of a value are the value itself, the items of an array, the values of the fields
of an object, and their parts. A value has distinct fields if no object among its parts
names a field twice. The test for that is computed along the nesting.
-/

namespace DecimalScript

namespace Value

/-- A value that is found in another one, at any depth. -/
inductive Part : Value → Value → Prop
  /-- A value is a part of itself. -/
  | whole {value : Value} : Part value value
  /-- A part of an item. -/
  | item {part item : Value} {items : List Value} (h : item ∈ items) (hpart : Part part item) :
      Part part (array items)
  /-- A part of the value of a field. -/
  | field {part value : Value} {name : String} {fields : List (String × Value)}
      (h : (name, value) ∈ fields) (hpart : Part part value) : Part part (object fields)

mutual

/-- Whether every object in a value has fields of different names. -/
def distinctFields : Value → Bool
  | .number _ => true
  | .text _ => true
  | .boolean _ => true
  | .array items => distinctFieldsAll items
  | .object fields => decide (NameTable.names fields).Nodup && distinctFieldsIn fields
  | .lambda _ _ _ => true
  | .nothing => true

/-- Whether every object in a list of values has fields of different names. -/
def distinctFieldsAll : List Value → Bool
  | [] => true
  | value :: rest => value.distinctFields && distinctFieldsAll rest

/-- Whether every object in the values of fields has fields of different names. -/
def distinctFieldsIn : List (String × Value) → Bool
  | [] => true
  | (_, value) :: rest => value.distinctFields && distinctFieldsIn rest

end

/-- The items of an array are tested one by one. -/
theorem distinctFieldsAll_iff {items : List Value} :
    distinctFieldsAll items = true ↔ ∀ item ∈ items, item.distinctFields = true := by
  induction items with
  | nil => simp [distinctFieldsAll]
  | cons first rest ih => simp [distinctFieldsAll, ih]

/-- The values of fields are tested one by one. -/
theorem distinctFieldsIn_iff {fields : List (String × Value)} :
    distinctFieldsIn fields = true ↔ ∀ field ∈ fields, field.2.distinctFields = true := by
  induction fields with
  | nil => simp [distinctFieldsIn]
  | cons first rest ih =>
    obtain ⟨name, value⟩ := first
    simp [distinctFieldsIn, ih]

/-- An array has distinct fields if its items do. -/
theorem distinctFields_array {items : List Value} :
    (array items).distinctFields = true ↔ ∀ item ∈ items, item.distinctFields = true := by
  simp only [distinctFields, distinctFieldsAll_iff]

/-- An object has distinct fields if their names are and their values do. -/
theorem distinctFields_object {fields : List (String × Value)} :
    (object fields).distinctFields = true ↔
      (NameTable.names fields).Nodup ∧ ∀ field ∈ fields, field.2.distinctFields = true := by
  simp only [distinctFields, Bool.and_eq_true, decide_eq_true_eq, distinctFieldsIn_iff]

/-- The parts of a value with distinct fields have distinct fields. -/
theorem Part.distinctFields {part value : Value} (hpart : Part part value)
    (h : value.distinctFields = true) : part.distinctFields = true := by
  induction hpart with
  | whole => exact h
  | item hitem _ ih => exact ih (distinctFields_array.mp h _ hitem)
  | field hfield _ ih => exact ih ((distinctFields_object.mp h).2 _ hfield)

/-- The test is right: a value passes it exactly if no object in it names a field twice. -/
theorem distinctFields_iff {value : Value} :
    value.distinctFields = true ↔
      ∀ fields, Part (object fields) value → (NameTable.names fields).Nodup := by
  constructor
  · intro h fields hpart
    exact (distinctFields_object.mp (hpart.distinctFields h)).1
  · intro h
    match value with
    | .number _ | .text _ | .boolean _ | .lambda _ _ _ | .nothing => rfl
    | .array items =>
      refine distinctFields_array.mpr fun item hitem => ?_
      exact distinctFields_iff.mpr fun fields hpart => h fields (.item hitem hpart)
    | .object fields =>
      refine distinctFields_object.mpr ⟨h fields .whole, fun field hfield => ?_⟩
      exact distinctFields_iff.mpr fun inner hpart => h inner (.field hfield hpart)
termination_by sizeOf value
decreasing_by
  · have := List.sizeOf_lt_of_mem hitem
    simp only [array.sizeOf_spec]
    omega
  · have := List.sizeOf_lt_of_mem hfield
    obtain ⟨name, inner⟩ := field
    simp only [object.sizeOf_spec, Prod.mk.sizeOf_spec] at this ⊢
    omega

end Value

end DecimalScript
