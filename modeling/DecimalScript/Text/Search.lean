/-!
# Finding one text in another

Occurrences are looked for from the left and do not overlap. Cutting a text at the
occurrences of a non-empty separator gives one more part than there are occurrences,
and joining the parts with the separator gives the text back.
-/

namespace DecimalScript.Text

/-- Whether a text occurs in another. -/
def occursIn (part : List Char) : List Char → Bool
  | [] => part.isEmpty
  | c :: rest => part.isPrefixOf (c :: rest) || occursIn part rest

/-- The number of characters before the first occurrence of a text in another. -/
def indexIn? (part : List Char) : List Char → Option Nat
  | [] => if part.isEmpty then some 0 else none
  | c :: rest =>
    if part.isPrefixOf (c :: rest) then some 0 else (indexIn? part rest).map (· + 1)

/-- What stands before and after the first occurrence of a text in another. -/
def cutAt? (part : List Char) : List Char → Option (List Char × List Char)
  | [] => if part.isEmpty then some ([], []) else none
  | c :: rest =>
    if part.isPrefixOf (c :: rest) then some ([], (c :: rest).drop part.length)
    else (cutAt? part rest).map fun (before, after) => (c :: before, after)

/-- The parts of a text between the occurrences of a non-empty separator. -/
def splitAt (separator text : List Char) : List (List Char) :=
  match cutAt? separator text with
  | none => [text]
  | some (before, after) =>
    if after.length < text.length then before :: splitAt separator after else [before, after]
termination_by text.length

/-- A text with every occurrence of a non-empty part replaced. -/
def replaceAll (part replacement text : List Char) : List Char :=
  match cutAt? part text with
  | none => text
  | some (before, after) =>
    if after.length < text.length then before ++ replacement ++ replaceAll part replacement after
    else before ++ replacement ++ after
termination_by text.length

end DecimalScript.Text
