import DecimalScript.Text.Printable

/-!
# Quoted text for syntax tree listings

A listed text stands between double quotes. Quotes, backslashes and the common control
characters are escaped by a letter; any other character that cannot be shown as it is
becomes its code in hexadecimal.
-/

namespace DecimalScript.Text

/-- A character by its code: a backslash, `u`, and the hexadecimal code in braces. -/
def codeEscape (c : Char) : List Char :=
  ['\\', 'u', '\x7b'] ++ Nat.toDigits 16 c.toNat ++ ['\x7d']

/-- One character of a quoted text. -/
def quotedChar (c : Char) : List Char :=
  match c with
  | '\x00' => ['\\', '0']
  | '\t' => ['\\', 't']
  | '\r' => ['\\', 'r']
  | '\n' => ['\\', 'n']
  | '\\' => ['\\', '\\']
  | '\x22' => ['\\', '\x22']
  | _ => if isShown c then [c] else codeEscape c

/-- A text between double quotes. -/
def quoted (text : String) : String :=
  String.ofList ('\x22' :: text.toList.flatMap quotedChar ++ ['\x22'])

/-- A byte of a message about a character that starts no token: printable ASCII as it is, quotes
and backslashes after a backslash, the rest by letter or two hexadecimal digits. -/
def quotedByte (b : UInt8) : String :=
  if b == 9 then "\\t"
  else if b == 10 then "\\n"
  else if b == 13 then "\\r"
  else if b == 34 || b == 39 || b == 92 then String.ofList ['\\', Char.ofNat b.toNat]
  else if 32 ≤ b.toNat && b.toNat < 127 then String.ofList [Char.ofNat b.toNat]
  else String.ofList
    (['\\', 'x'] ++ Nat.toDigits 16 (b.toNat / 16) ++ Nat.toDigits 16 (b.toNat % 16))

end DecimalScript.Text
