/-!
# Texts of the prompt

What stands around the line that is being edited.
-/

namespace DecimalScript

namespace Prompt

/-- The text in front of a line. -/
def left : String := "myco"

/-- The text at the right margin. -/
def right : String := ""

/-- The mark between the prompt and a line. -/
def indicator : String := "❯ "

/-- The text in front of a further line. -/
def multiline : String := "  ... "

/-- The text in front of a line found in the history by a search term. -/
def search (term : String) (failing : Bool) : String :=
  let state := if failing then "failing " else ""
  s!"({state}reverse-search: {term}) "

end Prompt

end DecimalScript
