import DecimalScript.Number.Basic

/-!
# Decimal text of numbers

A number is written with a sign when negative, its whole part, and its fraction
without trailing zeros. It is read from a run of digits, optionally followed by a
point and another run; digits past the sixth place are dropped.
-/

namespace DecimalScript

namespace Number

/-- A decimal digit. -/
def isDigit (c : Char) : Bool := '0' ≤ c && c ≤ '9'

/-- The value of a digit. -/
def digitValue (c : Char) : Nat := c.toNat - '0'.toNat

/-- The value of a run of digits, most significant first. -/
def digitsValue (digits : List Char) : Nat :=
  digits.foldl (fun value c => value * 10 + digitValue c) 0

/-- The first six digits of a fraction, filled up with zeros. -/
def fractionDigits (digits : List Char) : List Char :=
  (digits ++ List.replicate places '0').take places

/-- Cuts a text at its first point; without a point all of it is the whole part. -/
def cutAtPoint (text : List Char) : List Char × List Char :=
  (text.takeWhile (· != '.'), (text.dropWhile (· != '.')).drop 1)

/-- Reads decimal text: at least one digit, and nothing but digits around an optional point. -/
def ofDigits? (text : List Char) : Option Number :=
  let (wholeDigits, fraction) := cutAtPoint text
  if wholeDigits.isEmpty && fraction.isEmpty then none
  else if (wholeDigits ++ fraction).all isDigit then
    ofRaw? (digitsValue wholeDigits * scale + digitsValue (fractionDigits fraction))
  else none

/-- Reads decimal text from a string. -/
def parse? (text : String) : Option Number := ofDigits? text.toList

/-- The digits of a fraction of `n` millionths, without trailing zeros. -/
def trimmedFraction (n : Nat) : List Char :=
  let digits := Nat.toDigits 10 n
  let padded := List.replicate (places - digits.length) '0' ++ digits
  (padded.reverse.dropWhile (· == '0')).reverse

/-- The text of a number as characters. -/
def toChars (n : Number) : List Char :=
  let sign := if n.raw < 0 then ['-'] else []
  let whole := Nat.toDigits 10 (n.magnitude / 1000000)
  let fraction := n.magnitude % 1000000
  if fraction = 0 then sign ++ whole
  else sign ++ whole ++ '.' :: trimmedFraction fraction

/-- The text of a number. -/
def text (n : Number) : String := String.ofList n.toChars

end Number

end DecimalScript
