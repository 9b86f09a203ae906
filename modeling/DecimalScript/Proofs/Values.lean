import DecimalScript.Library.Table

/-!
# Values closed under operations

A class of values that contains all numbers, texts and truth values, and that arrays and
objects are in exactly by their parts, is not left by any operator or built-in function.
None of them fails with a fault that the program could not handle.
-/

namespace DecimalScript

/-- A result with a property, or a fault that the program can handle. -/
def Meets {α : Type} (good : α → Prop) : Except Fault α → Prop
  | .ok value => good value
  | .error fault => fault.isFatal = false

namespace Meets

variable {α β : Type} {good : α → Prop} {good' : β → Prop}

/-- A result in sequence with what follows it. -/
theorem bind {x : Except Fault α} {f : α → Except Fault β} (hx : Meets good x)
    (hf : ∀ a, good a → Meets good' (f a)) : Meets good' (x >>= f) := by
  cases x with
  | ok a => exact hf a hx
  | error fault => exact hx

end Meets

/-- The position that an index means is smaller than the number of elements. -/
theorem Value.meets_position (index : Number) (length line : Nat) :
    Meets (· < length) (Value.position index length line) := by
  unfold Value.position
  split
  · rename_i h
    simp only [Bool.and_eq_true, decide_eq_true_eq] at h
    show index.whole.toNat < length
    omega
  · rfl

/-- Classes of values that operators and built-in functions do not leave. -/
structure ValueClass (good : Value → Prop) : Prop where
  number : ∀ n, good (.number n)
  text : ∀ s, good (.text s)
  boolean : ∀ b, good (.boolean b)
  nothing : good .nothing
  array : ∀ {items}, good (.array items) ↔ ∀ item ∈ items, good item
  empty : good (.object [])
  field : ∀ {fields name value}, good (.object fields) →
    NameTable.get? fields name = some value → good value
  set : ∀ {fields name value}, good (.object fields) → good value →
    good (.object (NameTable.set fields name value))

namespace ValueClass

/-- All values are a class. -/
theorem univ : ValueClass fun _ => True where
  number _ := trivial
  text _ := trivial
  boolean _ := trivial
  nothing := trivial
  array := ⟨fun _ _ _ => trivial, fun _ => trivial⟩
  empty := trivial
  field _ _ := trivial
  set _ _ := trivial

variable {good : Value → Prop} (law : ValueClass good)

include law

/-- Whole numbers are in every class. -/
theorem ofInt (n : Int) : good (.ofInt n) := law.number _

/-- Counts are in every class. -/
theorem ofCount (n : Nat) : good (.ofCount n) := law.number _

/-- Characters are in every class. -/
theorem ofChar (c : Char) : good (.ofChar c) := law.text _

theorem negated (v : Value) (line : Nat) : Meets good (v.negated line) := by
  unfold Value.negated
  split
  · split
    · exact law.number _
    · rfl
  · rfl

theorem arithmetic (op : BinaryOp) (a b : Value) (line : Nat)
    (apply : Number → Number → Option Number) :
    Meets good (Value.arithmetic op a b line apply) := by
  unfold Value.arithmetic
  split
  · split
    · exact law.number _
    · rfl
  · rfl

/-- Sums join arrays, whose items are in the class already. -/
theorem add {a b : Value} (ha : good a) (hb : good b) (line : Nat) :
    Meets good (Value.add a b line) := by
  unfold Value.add
  split
  · refine law.array.mpr fun item hitem => ?_
    rcases List.mem_append.mp hitem with h | h
    · exact law.array.mp ha item h
    · exact law.array.mp hb item h
  · exact law.text _
  · exact law.text _
  · exact law.arithmetic _ _ _ _ _

theorem compared (a b : Value) (line : Nat) (holds : Ordering → Bool) :
    Meets good (Value.compared a b line holds) := by
  unfold Value.compared
  split
  · exact law.boolean _
  · rfl

/-- No operator leaves the class. -/
theorem applyBinary {a b : Value} (ha : good a) (hb : good b) (op : BinaryOp) (line : Nat) :
    Meets good (a.applyBinary op b line) := by
  cases op with
  | add => exact law.add ha hb line
  | subtract | multiply => exact law.arithmetic _ _ _ _ _
  | divide | modulo =>
    simp only [Value.applyBinary]
    split
    · rfl
    · exact law.arithmetic _ _ _ _ _
  | equal | notEqual | both | either => exact law.boolean _
  | less | lessEqual | greater | greaterEqual => exact law.compared _ _ _ _

/-- A member is a field of the object, or a length. -/
theorem member {target : Value} (h : good target) (name : String) (line : Nat) :
    Meets good (target.member name line) := by
  unfold Value.member
  split
  · split
    · rename_i hget
      exact law.field h hget
    · rfl
  · split
    · exact law.ofCount _
    · rfl
  · split
    · exact law.ofCount _
    · rfl
  · rfl

theorem element {target : Value} (h : good target) (index : Value) (line : Nat) :
    Meets good (target.element index line) := by
  unfold Value.element
  split
  · refine (Value.meets_position _ _ _).bind fun i hi => ?_
    show good (List.getD _ i _)
    rw [List.getD_eq_getElem?_getD, List.getElem?_eq_getElem hi]
    exact law.array.mp h _ (List.getElem_mem hi)
  · exact (Value.meets_position _ _ _).bind fun i _ => law.ofChar _
  · exact law.member h _ _
  · rfl

/-- An assignment of an element or property puts one value of the class in place of another. -/
theorem withElement {target new : Value} (h : good target) (hnew : good new) (index : Value)
    (line : Nat) : Meets good (target.withElement index new line) := by
  unfold Value.withElement
  split
  · refine (Value.meets_position _ _ _).bind fun i _ => law.array.mpr fun item hitem => ?_
    rcases List.mem_or_eq_of_mem_set hitem with hold | rfl
    · exact law.array.mp h item hold
    · exact hnew
  · exact law.set h hnew
  · rfl

theorem loopItems {value : Value} (h : good value) (line : Nat) :
    Meets (fun items => ∀ item ∈ items, good item) (value.loopItems line) := by
  unfold Value.loopItems
  split
  · exact law.array.mp h
  · intro item hitem
    obtain ⟨c, _, rfl⟩ := List.mem_map.mp hitem
    exact law.ofChar c
  · intro item hitem
    obtain ⟨⟨name, _⟩, _, rfl⟩ := List.mem_map.mp hitem
    exact law.text name
  · rfl

/-- What a path of properties leads to is in the class, and so is an object made on the way. -/
theorem setPath {new : Value} (hnew : good new) (path : List String) :
    ∀ {target changed : Value}, good target → target.setPath path new = .ok changed →
      good changed := by
  induction path with
  | nil =>
    intro target changed _ h
    cases h
    exact hnew
  | cons property rest ih =>
    intro target changed htarget h
    unfold Value.setPath at h
    split at h
    · rename_i fields
      have hinner : good ((NameTable.get? fields property).getD (.object [])) := by
        cases hget : NameTable.get? fields property with
        | none => exact law.empty
        | some inner => exact law.field htarget hget
      cases hset : ((NameTable.get? fields property).getD (.object [])).setPath rest new with
      | error fault => simp [hset, bind, Except.bind] at h
      | ok inner =>
        simp only [hset, bind, Except.bind, pure, Except.pure, Except.ok.injEq] at h
        subst h
        exact law.set htarget (ih hinner hset)
    · cases h

end ValueClass

end DecimalScript
