import DecimalScript.NameTable
import DecimalScript.Syntax.Basic

/-!
# Values

A value is a number, a text, a truth value, an array, an object with its fields in
order, a lambda, or nothing. A lambda carries the identity it received when it was
created; copies of a value keep it.
-/

namespace DecimalScript

/-- Values of the language. -/
inductive Value where
  | number (value : Number)
  | text (value : String)
  | boolean (value : Bool)
  | array (items : List Value)
  /-- The fields in order. -/
  | object (fields : List (String × Value))
  /-- The identity tells lambdas with the same parameters and body apart. -/
  | lambda (identity : Nat) (params : List String) (body : Expr)
  | nothing

namespace Value

instance : Inhabited Value := ⟨nothing⟩

/-- The kinds of values. -/
inductive Kind where
  | number | text | boolean | array | object | lambda | nothing
  deriving DecidableEq, Repr

/-- The name of a kind in the language and in messages. -/
def Kind.title : Kind → String
  | number => "number"
  | text => "string"
  | boolean => "boolean"
  | array => "array"
  | object => "object"
  | lambda => "lambda"
  | nothing => "none"

/-- The kind of a value. -/
def kind : Value → Kind
  | number _ => .number
  | text _ => .text
  | boolean _ => .boolean
  | array _ => .array
  | object _ => .object
  | lambda _ _ _ => .lambda
  | nothing => .nothing

/-- Zero, the empty text, the false value and nothing do not hold; all else does. -/
def holds : Value → Bool
  | number n => !n.isZero
  | text s => !s.isEmpty
  | boolean b => b
  | array _ | object _ | lambda _ _ _ => true
  | nothing => false

/-- A whole number as a value; one out of range reads as zero. -/
def ofInt (n : Int) : Value := number ((Number.ofInt? n).getD .zero)

/-- A count as a value. -/
def ofCount (n : Nat) : Value := number (.ofCount n)

/-- A single character as a value. -/
def ofChar (c : Char) : Value := text (String.ofList [c])

/-- The first field of an object with a given name. -/
def property? (value : Value) (name : String) : Option Value :=
  match value with
  | object fields => NameTable.get? fields name
  | _ => none

/-- What stops the assignment of a property: its name, and the kind of the value that cannot
have it. -/
structure PathFault where
  /-- The property that could not be set. -/
  property : String
  /-- The kind of the value it would have been set on. -/
  kind : Kind
  deriving DecidableEq, Repr

/-- A value with another one in place of what a path of properties leads to. Objects that are
missing on the way are made; a value of any other kind on the way is a fault. -/
def setPath (target : Value) (path : List String) (new : Value) : Except PathFault Value :=
  match path with
  | [] => .ok new
  | property :: rest =>
    match target with
    | object fields => do
      let inner := (NameTable.get? fields property).getD (object [])
      return object (NameTable.set fields property (← setPath inner rest new))
    | other => .error ⟨property, other.kind⟩

end Value

end DecimalScript
