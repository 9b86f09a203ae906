import DecimalScript.Number.Text
import DecimalScript.Value.Basic

/-!
# Text of values

A text on its own is written as it is; inside an array or object it stands between
double quotes, without any escaping. A lambda is written by its parameters.
-/

namespace DecimalScript

namespace Value

/-- A text between double quotes, nothing escaped. -/
def inQuotes (s : String) : String := "\x22" ++ s ++ "\x22"

mutual

/-- The text of a value. -/
def display : Value → String
  | number n => n.text
  | text s => s
  | boolean true => "True"
  | boolean false => "False"
  | array items => "[" ++ String.intercalate ", " (itemTexts items) ++ "]"
  | object fields => "\x7b" ++ String.intercalate ", " (fieldTexts fields) ++ "\x7d"
  | lambda _ params _ => "<lambda(" ++ String.intercalate ", " params ++ ")>"
  | nothing => "None"

/-- The texts of the items of an array. -/
def itemTexts : List Value → List String
  | [] => []
  | text s :: rest => inQuotes s :: itemTexts rest
  | item :: rest => display item :: itemTexts rest

/-- The texts of the fields of an object, each with its name. -/
def fieldTexts : List (String × Value) → List String
  | [] => []
  | (name, text s) :: rest => (name ++ ": " ++ inQuotes s) :: fieldTexts rest
  | (name, value) :: rest => (name ++ ": " ++ display value) :: fieldTexts rest

end

/-- The text of a value as it stands inside an array or object. -/
def nestedDisplay : Value → String
  | text s => inQuotes s
  | value => value.display

end Value

end DecimalScript
