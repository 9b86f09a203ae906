import DecimalScript.Library.Basic
import DecimalScript.Text.Blank
import DecimalScript.Text.Case
import DecimalScript.Text.Search

/-!
# The text library

Case, trimming, and splitting, joining, finding and replacing parts of texts. An empty
separator splits a text into its characters, and an empty part is never replaced.
-/

namespace DecimalScript

namespace Builtin

/-- A function of one text. -/
def onText (name : String) (f : String → String) (a : Value) (line : Nat) :
    Except Fault Value := do
  return .text (f (← textArg name a line))

/-- The parts of a text between separators. -/
def split (a b : Value) (line : Nat) : Except Fault Value := do
  let s ← textArg "split" a line
  let separator ← textArg "split" b line
  if separator.isEmpty then return .array (s.toList.map .ofChar)
  return .array ((Text.splitAt separator.toList s.toList).map (.text ∘ String.ofList))

/-- The texts of the elements of an array with a separator between them. -/
def join (a b : Value) (line : Nat) : Except Fault Value := do
  let items ← arrayArg "join" a line
  let separator ← textArg "join" b line
  return .text (String.intercalate separator (items.map (·.display)))

/-- Whether a text occurs in another. -/
def contains (a b : Value) (line : Nat) : Except Fault Value := do
  let s ← textArg "contains" a line
  let part ← textArg "contains" b line
  return .boolean (Text.occursIn part.toList s.toList)

/-- A text with every occurrence of a part replaced. -/
def replace (a b c : Value) (line : Nat) : Except Fault Value := do
  let s ← textArg "replace" a line
  let part ← textArg "replace" b line
  let replacement ← textArg "replace" c line
  if part.isEmpty then return .text s
  return .text
    (String.ofList (Text.replaceAll part.toList replacement.toList s.toList))

/-- The built-ins of the text library. -/
def text : NameTable Builtin := [
  ("upper", ofUnary (onText "upper" Text.upper)), ("lower", ofUnary (onText "lower" Text.lower)),
  ("trim", ofUnary (onText "trim" Text.trimmed)), ("split", ofBinary split),
  ("join", ofBinary join), ("contains", ofBinary contains), ("replace", ofTernary replace)]

end Builtin

end DecimalScript
