import DecimalScript.Value.Basic

/-!
# Elements of arrays and texts

An array and a text are read alike: the elements of a text are its characters, each a text of its
own.
-/

namespace DecimalScript

namespace Value

/-- The elements of an array or a text, in order. -/
inductive HasElements : Value → List Value → Prop
  /-- An array has its items. -/
  | array (items : List Value) : HasElements (.array items) items
  /-- A text has its characters. -/
  | text (s : String) : HasElements (.text s) (s.toList.map .ofChar)

end Value

end DecimalScript
