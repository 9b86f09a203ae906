import DecimalScript.Value.Basic

/-!
# Equality and order of values

Arrays are compared item by item and objects field by field in order; lambdas are equal
when they have one identity. Values of different kinds differ. So equality is equality of
what is left of values when lambdas are reduced to their identities. Only two numbers or two
texts are ordered, texts by the code points of their characters.
-/

namespace DecimalScript

namespace Value

mutual

/-- Equality of values. -/
def equal : Value → Value → Bool
  | number a, number b => a == b
  | text a, text b => a == b
  | boolean a, boolean b => a == b
  | array a, array b => equalItems a b
  | object a, object b => equalFields a b
  | lambda a _ _, lambda b _ _ => a == b
  | nothing, nothing => true
  | _, _ => false

/-- Equality of arrays, item by item. -/
def equalItems : List Value → List Value → Bool
  | [], [] => true
  | a :: as, b :: bs => equal a b && equalItems as bs
  | _, _ => false

/-- Equality of objects, field by field in order. -/
def equalFields : List (String × Value) → List (String × Value) → Bool
  | [], [] => true
  | (x, a) :: as, (y, b) :: bs => x == y && equal a b && equalFields as bs
  | _, _ => false

end

mutual

/-- What equality sees of a value: all of it, but of lambdas their identities only. -/
def outline : Value → Value
  | number n => number n
  | text s => text s
  | boolean b => boolean b
  | array items => array (outlineItems items)
  | object fields => object (outlineFields fields)
  | lambda identity _ _ => lambda identity [] (.literal 0 (.boolean false))
  | nothing => nothing

/-- What equality sees of the items of an array. -/
def outlineItems : List Value → List Value
  | [] => []
  | item :: rest => outline item :: outlineItems rest

/-- What equality sees of the fields of an object. -/
def outlineFields : List (String × Value) → List (String × Value)
  | [] => []
  | (name, value) :: rest => (name, outline value) :: outlineFields rest

end

/-- Two values that have an order. -/
inductive Comparable : Value → Value → Prop
  /-- Numbers have one. -/
  | numbers (x y : Number) : Comparable (number x) (number y)
  /-- Texts have one. -/
  | texts (s t : String) : Comparable (text s) (text t)

/-- The order of two numbers or two texts; no other values are ordered. -/
def order? : Value → Value → Option Ordering
  | number a, number b => some (compare a b)
  | text a, text b => some (compare a b)
  | _, _ => none

end Value

end DecimalScript
