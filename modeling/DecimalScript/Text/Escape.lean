/-!
# Escape sequences of string literals

Between the quotes of a literal a backslash opens an escape. A single character after
it stands for a control character or for itself; `u` and a hexadecimal code in braces
stands for the character with that code. Anything else after a backslash is refused.
-/

namespace DecimalScript.Text

/-- The character that a backslash and one character stand for. -/
def simpleEscape? (c : Char) : Option Char :=
  match c with
  | 'a' => some '\x07'
  | 'b' => some '\x08'
  | 'v' => some '\x0B'
  | 'f' => some '\x0C'
  | 'n' => some '\n'
  | 'r' => some '\r'
  | 't' => some '\t'
  | 'e' => some '\x1B'
  | 'E' => some '\x1B'
  | '\\' => some '\\'
  | '\x27' => some '\x27'
  | '\x22' => some '\x22'
  | '$' => some '$'
  | '\x60' => some '\x60'
  | ' ' => some ' '
  | _ => none

/-- The value of a hexadecimal digit of either case. -/
def hexDigit? (c : Char) : Option Nat :=
  if '0' ≤ c && c ≤ '9' then some (c.toNat - '0'.toNat)
  else if 'a' ≤ c && c ≤ 'f' then some (c.toNat - 'a'.toNat + 10)
  else if 'A' ≤ c && c ≤ 'F' then some (c.toNat - 'A'.toNat + 10)
  else none

/-- The value of a hexadecimal number of at least one digit, after an optional plus sign. -/
def hexNumber? (text : List Char) : Option Nat :=
  let digits := match text with
    | '+' :: rest => rest
    | _ => text
  if digits.isEmpty then none
  else digits.foldlM (fun value c => (hexDigit? c).map (value * 16 + ·)) 0

/-- The character whose code a hexadecimal number gives. -/
def charOfHex? (text : List Char) : Option Char := do
  let code ← hexNumber? text
  if code.isValidChar then some (Char.ofNat code) else none

mutual

/-- The text a literal stands for, from what stands between its quotes. -/
def unescape? : List Char → Option (List Char)
  | [] => some []
  | '\\' :: 'u' :: '\x7b' :: rest => unescapeCode? [] rest
  | '\\' :: c :: rest => do
    let meant ← simpleEscape? c
    (unescape? rest).map (meant :: ·)
  | c :: rest => if c = '\\' then none else (unescape? rest).map (c :: ·)

/-- The rest of a literal inside the braces of a code, given the digits read so far. -/
def unescapeCode? (digits : List Char) : List Char → Option (List Char)
  | [] => none
  | '\x7d' :: rest => do
    let meant ← charOfHex? digits
    (unescape? rest).map (meant :: ·)
  | c :: rest => unescapeCode? (digits ++ [c]) rest

end

end DecimalScript.Text
