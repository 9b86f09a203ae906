import DecimalScript.Text.CaseMap
import DecimalScript.Text.Cased

/-!
# Upper and lower case of texts

Every character is mapped on its own, possibly to several, with one exception: a
capital sigma that ends a word becomes a final sigma in lower case.
-/

namespace DecimalScript.Text

/-- The upper case of one character. -/
def upperChar (c : Char) : List Char :=
  (mapCode upperExpansions upperRuns c.toNat).map Char.ofNat

/-- The lower case of one character outside any context. -/
def lowerChar (c : Char) : List Char :=
  (mapCode lowerExpansions lowerRuns c.toNat).map Char.ofNat

/-- Whether the nearest character that is not case-ignorable is cased. -/
def meetsCased (text : List Char) : Bool :=
  match text.dropWhile isCaseIgnorable with
  | [] => false
  | c :: _ => isCased c

/-- Lower case of a text, given the characters before it, nearest first. -/
def lowerFrom (before : List Char) : List Char → List Char
  | [] => []
  | c :: rest =>
    let mapped :=
      if c = 'Σ' then (if meetsCased before && !meetsCased rest then ['ς'] else ['σ'])
      else lowerChar c
    mapped ++ lowerFrom (c :: before) rest

/-- A string in upper case. -/
def upper (text : String) : String := String.ofList (text.toList.flatMap upperChar)

/-- A string in lower case. -/
def lower (text : String) : String := String.ofList (lowerFrom [] text.toList)

end DecimalScript.Text
