import DecimalScript.Text.Escape

/-!
# String literals with their quotes

Every text has a literal: between two quotes it is written as it is, save that a backslash
stands before each quote and each backslash. A literal can be read without being told where
it ends, because the first quote that is not part of an escape ends it.
-/

namespace DecimalScript.Text

/-- A text with a backslash before each backslash and each quote. -/
def escaped (text : List Char) : List Char :=
  text.flatMap fun c => if c = '\\' ∨ c = '\x22' then ['\\', c] else [c]

/-- The literal of a text. -/
def literal (text : List Char) : List Char := '\x22' :: (escaped text ++ ['\x22'])

mutual

/-- The text a literal stands for and what follows its closing quote, read from what follows its
opening quote. -/
def readLiteral? : List Char → Option (List Char × List Char)
  | [] => none
  | '\\' :: 'u' :: '\x7b' :: rest => readLiteralCode? [] rest
  | '\\' :: c :: rest => do
    let meant ← simpleEscape? c
    (readLiteral? rest).map fun (text, after) => (meant :: text, after)
  | c :: rest =>
    if c = '\x22' then some ([], rest)
    else if c = '\\' then none
    else (readLiteral? rest).map fun (text, after) => (c :: text, after)

/-- The same inside the braces of a code, given the digits read so far. A quote there ends
nothing. -/
def readLiteralCode? (digits : List Char) : List Char → Option (List Char × List Char)
  | [] => none
  | '\x7d' :: rest => do
    let meant ← charOfHex? digits
    (readLiteral? rest).map fun (text, after) => (meant :: text, after)
  | c :: rest => readLiteralCode? (digits ++ [c]) rest

end

end DecimalScript.Text
