import DecimalScript.Fault
import DecimalScript.Number.Text
import DecimalScript.Value.Order
import DecimalScript.Value.Text

/-!
# Operators on values

Operators, members and indices look at values only. Adding joins two arrays, and joins
texts as soon as one operand is a text; all other arithmetic needs two numbers. Elements
are counted from zero, those of a text by characters, and only an integral number in
range is an index.
-/

namespace DecimalScript

namespace Value

/-- Applies an operation to two numbers. -/
def arithmetic (op : BinaryOp) (left right : Value) (line : Nat)
    (apply : Number → Number → Option Number) : Except Fault Value :=
  match left, right with
  | number a, number b =>
    match apply a b with
    | some result => .ok (number result)
    | none => .error (.overflow op.symbol line)
  | _, _ => .error (.needsNumbers op left.kind right.kind line)

/-- The sum of two numbers, or what two arrays or a text and any value give when joined. -/
def add (left right : Value) (line : Nat) : Except Fault Value :=
  match left, right with
  | array a, array b => .ok (array (a ++ b))
  | text a, _ => .ok (text (a ++ right.display))
  | _, text b => .ok (text (left.display ++ b))
  | _, _ => arithmetic .add left right line Number.add?

/-- Whether a value is the number zero. -/
def isZero : Value → Bool
  | number n => n.isZero
  | _ => false

/-- Compares two values that have an order. -/
def compared (left right : Value) (line : Nat) (holds : Ordering → Bool) : Except Fault Value :=
  match order? left right with
  | some ordering => .ok (boolean (holds ordering))
  | none => .error (.cannotCompare left.kind right.kind line)

/-- Applies an operator to its operands. -/
def applyBinary (op : BinaryOp) (left right : Value) (line : Nat) : Except Fault Value :=
  match op with
  | .add => add left right line
  | .subtract => arithmetic op left right line Number.sub?
  | .multiply => arithmetic op left right line Number.mul?
  | .divide =>
    if right.isZero then .error (.divisionByZero line)
    else arithmetic op left right line Number.div?
  | .modulo =>
    if right.isZero then .error (.moduloByZero line)
    else arithmetic op left right line Number.rem?
  | .equal => .ok (boolean (equal left right))
  | .notEqual => .ok (boolean (!equal left right))
  | .less => compared left right line (·.isLT)
  | .lessEqual => compared left right line (·.isLE)
  | .greater => compared left right line (·.isGT)
  | .greaterEqual => compared left right line (·.isGE)
  | .both => .ok (boolean (left.holds && right.holds))
  | .either => .ok (boolean (left.holds || right.holds))

/-- The negation of a number. -/
def negated (value : Value) (line : Nat) : Except Fault Value :=
  match value with
  | number n =>
    match n.neg? with
    | some result => .ok (number result)
    | none => .error (.overflow "-" line)
  | other => .error (.cannotNegate other.kind line)

/-- The position that an index means among a number of elements. -/
def position (index : Number) (length : Nat) (line : Nat) : Except Fault Nat :=
  if index.isIntegral && 0 ≤ index.whole && index.whole < length then .ok index.whole.toNat
  else .error (.outOfBounds index.text length line)

/-- The property of an object, or the length of a text or array. -/
def member (target : Value) (name : String) (line : Nat) : Except Fault Value :=
  match target with
  | object fields =>
    match NameTable.get? fields name with
    | some value => .ok value
    | none => .error (.noProperty name line)
  | text s => if name == "length" then .ok (ofCount s.length) else wrong
  | array items => if name == "length" then .ok (ofCount items.length) else wrong
  | _ => wrong
where
  /-- The target has no properties. -/
  wrong : Except Fault Value := .error (.cannotRead name target.kind line)

/-- The element of an array or text, or the property of an object. -/
def element (target index : Value) (line : Nat) : Except Fault Value :=
  match target, index with
  | array items, number n => do
    let i ← position n items.length line
    return items.getD i nothing
  | text s, number n => do
    let chars := s.toList
    let i ← position n chars.length line
    return ofChar (chars.getD i ' ')
  | object _, text name => member target name line
  | _, _ => .error (.cannotIndex target.kind index.kind line)

/-- The array or object with another element or property. -/
def withElement (target index new : Value) (line : Nat) : Except Fault Value :=
  match target, index with
  | array items, number n => do
    let i ← position n items.length line
    return array (items.set i new)
  | object fields, text name => .ok (object (NameTable.set fields name new))
  | _, _ => .error (.cannotAssignIndex target.kind index.kind line)

/-- The items a loop runs over: elements, characters, or names of fields. -/
def loopItems (value : Value) (line : Nat) : Except Fault (List Value) :=
  match value with
  | array items => .ok items
  | text s => .ok (s.toList.map ofChar)
  | object fields => .ok (fields.map fun (name, _) => text name)
  | other => .error (.cannotIterate other.kind line)

end Value

end DecimalScript
