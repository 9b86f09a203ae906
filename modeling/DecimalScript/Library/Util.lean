import DecimalScript.Library.Core
import DecimalScript.Text.Search

/-!
# The utility library

Tests for the kind of a value, searches, and array operations. Arrays are values, so
every operation gives a new array and leaves its argument as it was.
-/

namespace DecimalScript

namespace Builtin

/-- Whether a value is of a given kind. -/
def isKind (kind : Value.Kind) (a : Value) (_ : Nat) : Except Fault Value :=
  .ok (.boolean (a.kind == kind))

/-- A position as a value, or minus one. -/
def positionValue (position : Option Nat) : Value :=
  match position with
  | some i => .ofInt i
  | none => .ofInt (-1)

/-- The position of the first equal element of an array, or of the first occurrence in a text. -/
def find (a b : Value) (line : Nat) : Except Fault Value :=
  match a, b with
  | .array items, needle => .ok (positionValue (items.findIdx? (·.equal needle)))
  | .text s, .text needle => .ok (positionValue (Text.indexIn? needle.toList s.toList))
  | other, _ => .error (.badArgument "find" "an array or string" other.kind line)

/-- A value as it is. -/
def copy (a : Value) (_ : Nat) : Except Fault Value := .ok a

/-- Whether an object has a field or an array an element. -/
def has (a b : Value) (line : Nat) : Except Fault Value :=
  match a with
  | .object _ => do return .boolean (a.property? (← textArg "has" b line)).isSome
  | .array items => .ok (.boolean (items.any (·.equal b)))
  | other => .error (.badArgument "has" "an object or array" other.kind line)

/-- The first element of an array, or nothing. -/
def first (a : Value) (line : Nat) : Except Fault Value := do
  return (← arrayArg "first" a line).head?.getD .nothing

/-- The last element of an array, or nothing. -/
def last (a : Value) (line : Nat) : Except Fault Value := do
  return (← arrayArg "last" a line).getLast?.getD .nothing

/-- An array with one more element. -/
def push (a b : Value) (line : Nat) : Except Fault Value := do
  return .array ((← arrayArg "push" a line) ++ [b])

/-- An array without its last element. -/
def pop (a : Value) (line : Nat) : Except Fault Value := do
  return .array (← arrayArg "pop" a line).dropLast

/-- An array or text in reverse order. -/
def reverse (a : Value) (line : Nat) : Except Fault Value :=
  match a with
  | .array items => .ok (.array items.reverse)
  | .text s => .ok (.text (String.ofList s.toList.reverse))
  | other => .error (.badArgument "reverse" "an array or string" other.kind line)

/-- The built-ins of the utility library. -/
def util : NameTable Builtin := [
  ("type", ofUnary kindName), ("str", ofUnary toText), ("len", ofUnary length),
  ("is_num", ofUnary (isKind .number)), ("is_str", ofUnary (isKind .text)),
  ("is_arr", ofUnary (isKind .array)), ("is_obj", ofUnary (isKind .object)),
  ("find", ofBinary find), ("copy", ofUnary copy), ("has", ofBinary has),
  ("first", ofUnary first), ("last", ofUnary last), ("push", ofBinary push),
  ("pop", ofUnary pop), ("reverse", ofUnary reverse)]

end Builtin

end DecimalScript
