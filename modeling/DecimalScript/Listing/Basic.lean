/-!
# Listings

A listing shows nested data over several lines: a part stands on a line of its own with
a comma after it, four spaces deeper than what it belongs to. Plain texts, names
without parts and empty lists take no line of their own.
-/

namespace DecimalScript

/-- Nested data to be listed. -/
inductive Listing where
  /-- A text that stands for itself. -/
  | atom (text : String)
  /-- A name with named parts. -/
  | record (name : String) (fields : List (String × Listing))
  /-- A name, which may be empty, with parts in order. -/
  | tuple (name : String) (items : List Listing)
  /-- A list of parts. -/
  | list (items : List Listing)

namespace Listing

/-- A part that may be absent. -/
def option (item : Option Listing) : Listing :=
  match item with
  | none => atom "None"
  | some item => tuple "Some" [item]

/-- The spaces in front of a line. -/
def margin (depth : Nat) : String := String.ofList (List.replicate (4 * depth) ' ')

mutual

/-- The text of a listing whose first line starts at a given depth. -/
def render (depth : Nat) : Listing → String
  | atom text => text
  | record name fields =>
    name ++ " \x7b\n" ++ renderFields (depth + 1) fields ++ margin depth ++ "\x7d"
  | tuple name items => name ++ "(\n" ++ renderItems (depth + 1) items ++ margin depth ++ ")"
  | list [] => "[]"
  | list items => "[\n" ++ renderItems (depth + 1) items ++ margin depth ++ "]"

/-- The lines of parts in order. -/
def renderItems (depth : Nat) : List Listing → String
  | [] => ""
  | item :: rest => margin depth ++ render depth item ++ ",\n" ++ renderItems depth rest

/-- The lines of named parts. -/
def renderFields (depth : Nat) : List (String × Listing) → String
  | [] => ""
  | (name, item) :: rest =>
    margin depth ++ name ++ ": " ++ render depth item ++ ",\n" ++ renderFields depth rest

end

end Listing

end DecimalScript
