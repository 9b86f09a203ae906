import DecimalScript.Text.Utf8

/-!
# Finding one byte string in another

The same search as for characters, told of bytes: where a text is kept as its UTF-8 bytes, this is
what a search goes through.
-/

namespace DecimalScript.Text

/-- The number of bytes before the first occurrence of a byte string in another. -/
def byteIndexIn? (part : List UInt8) : List UInt8 → Option Nat
  | [] => if part.isEmpty then some 0 else none
  | b :: rest =>
    if part.isPrefixOf (b :: rest) then some 0 else (byteIndexIn? part rest).map (· + 1)

end DecimalScript.Text
