import DecimalScript.Text.CodeRange

/-!
# White space

Two classes are in use. Between tokens only five ASCII bytes count; around a text that
is trimmed every character with the Unicode property White_Space counts.
-/

namespace DecimalScript.Text

/-- The bytes that separate tokens: tab, line feed, form feed, carriage return and space. -/
def isBlankByte (b : UInt8) : Bool := b == 9 || b == 10 || b == 12 || b == 13 || b == 32

/-- The characters with the property White_Space. -/
def blankRanges : CodeRanges := [
  (0x9, 0xD), (0x20, 0x20), (0x85, 0x85), (0xA0, 0xA0), (0x1680, 0x1680), (0x2000, 0x200A),
  (0x2028, 0x2029), (0x202F, 0x202F), (0x205F, 0x205F), (0x3000, 0x3000)]

/-- A white-space character. -/
def isBlank (c : Char) : Bool := blankRanges.has c

/-- Drops characters of a class at the end of a text. -/
def dropEndWhile (p : Char → Bool) (text : List Char) : List Char :=
  (text.reverse.dropWhile p).reverse

/-- Drops white space at both ends of a text. -/
def trim (text : List Char) : List Char := dropEndWhile isBlank (text.dropWhile isBlank)

/-- Drops white space at both ends of a string. -/
def trimmed (text : String) : String := String.ofList (trim text.toList)

end DecimalScript.Text
