/-!
# Sets of characters as ranges of code points

A set is a list of closed ranges. Membership scans the list, so the order of the
ranges has no meaning, and a table may be read as the definition of its set. The tables
of character properties and of case are those of Unicode 17.0.
-/

namespace DecimalScript.Text

/-- A set of characters, given by closed ranges of code points. -/
abbrev CodeRanges := List (Nat × Nat)

/-- A character belongs to a set when one of the ranges holds its code point. -/
def CodeRanges.has (ranges : CodeRanges) (c : Char) : Bool :=
  ranges.any fun (first, last) => first ≤ c.toNat && c.toNat ≤ last

end DecimalScript.Text
