import DecimalScript.Eval.Operators

/-!
# Paths of properties

A path of properties leads from a value to what is read by following it, one property after the
other. Writing at the end of a path puts a new value there and leaves alone what other paths
lead to. It can be done in two ways: by building a new value, or in place, where missing
objects are made on the way down before it is known whether the rest of the way can be gone.
-/

namespace DecimalScript

namespace Value

/-- What reading the properties of a path gives, one after the other. -/
def follow (line : Nat) : Value → List String → Except Fault Value
  | value, [] => .ok value
  | value, name :: rest =>
    match value.member name line with
    | .ok inner => follow line inner rest
    | .error fault => .error fault

/-- What became of a value in which a new one was written at the end of a path. -/
structure WrittenAt (target : Value) (path : List String) (new changed : Value) : Prop where
  /-- The path leads to the new value. -/
  written : ∀ line, changed.follow line path = .ok new
  /-- A path that neither passes the end of the written one nor ends on the way to it leads where
  it led before, or nowhere as before. -/
  apart : ∀ line other, ¬ other <+: path → ¬ path <+: other →
    (changed.follow line other).toOption = (target.follow line other).toOption
  /-- An object on the way keeps its properties in their order. -/
  order : ∀ line way fields, way <+: path → way ≠ path →
    target.follow line way = .ok (object fields) → ∃ fields',
      changed.follow line way = .ok (object fields') ∧
        NameTable.names fields <+: NameTable.names fields'

/-- What is left of a value when a path in it is assigned in place, and the fault that ended the
assignment, if one did. A missing property is made an empty object before the path is followed
any further. -/
def assignInPlace (target : Value) (path : List String) (new : Value) : Value × Option PathFault :=
  match path with
  | [] => (new, none)
  | property :: rest =>
    match target with
    | object fields =>
      let made :=
        if (NameTable.get? fields property).isSome then fields
        else NameTable.set fields property (object [])
      let inner := (NameTable.get? made property).getD nothing
      let (changed, fault) := assignInPlace inner rest new
      (object (NameTable.set made property changed), fault)
    | other => (other, some ⟨property, other.kind⟩)

end Value

end DecimalScript
