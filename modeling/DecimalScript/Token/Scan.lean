import DecimalScript.Number.Text
import DecimalScript.Text.Blank
import DecimalScript.Text.Escape
import DecimalScript.Text.Quoted
import DecimalScript.Text.Utf8
import DecimalScript.Token.Basic

/-!
# Tokens of a source

The source is a string of bytes. Blank bytes and comments separate tokens; at any other
byte exactly one rule applies, and it tells how many bytes after that byte belong to the
token. Since that byte itself is always consumed, reading ends on every source. A line
number is one plus the number of line feeds before a token.
-/

namespace DecimalScript

/-- Why a source cannot be split into tokens. -/
inductive LexicalFault where
  /-- A block comment has no end. -/
  | openComment
  /-- A string literal has no closing quote. -/
  | openText
  /-- A string literal holds an escape sequence that has no meaning. -/
  | badEscape
  /-- A number literal is too large. -/
  | numberRange (literal : String)
  /-- A byte starts no token. -/
  | strayByte (byte : UInt8)
  deriving DecidableEq

namespace LexicalFault

/-- The wording of a fault. -/
def message : LexicalFault → String
  | openComment => "Unterminated block comment"
  | openText => "Unterminated string literal"
  | badEscape => "Invalid escape sequence in string literal"
  | numberRange literal => s!"Number literal '{literal}' is out of range"
  | strayByte byte => s!"Unexpected character '{Text.quotedByte byte}'"

/-- Whether more source could mend the fault. -/
def isOpen : LexicalFault → Bool
  | openComment | openText => true
  | _ => false

end LexicalFault

/-- A lexical fault and the line of the construct it lies in. -/
structure LexicalError where
  /-- What is wrong. -/
  fault : LexicalFault
  /-- The line of the first byte of the construct. -/
  line : Nat
  deriving DecidableEq

namespace Token

/-- What one rule reads: a token or a comment, and the number of bytes after the first. -/
structure Scanned where
  /-- The token, or nothing for a comment. -/
  kind : Option TokenKind
  /-- How many bytes after the first belong to it. -/
  extra : Nat
  deriving DecidableEq

/-- The code of an ASCII character as a byte. -/
def code (c : Char) : UInt8 := c.toNat.toUInt8

/-- A decimal digit. -/
def isDigitByte (b : UInt8) : Bool := code '0' ≤ b && b ≤ code '9'

/-- A byte that may start a name. -/
def isNameStart (b : UInt8) : Bool :=
  (code 'a' ≤ b && b ≤ code 'z') || (code 'A' ≤ b && b ≤ code 'Z') || b == code '_'

/-- A byte that may continue a name. -/
def isNameByte (b : UInt8) : Bool := isNameStart b || isDigitByte b

/-- A byte that may continue a module path. -/
def isPathByte (b : UInt8) : Bool := !Text.isBlankByte b && b != code ';'

/-- The number of line feeds in a byte string. -/
def newlines (bytes : List UInt8) : Nat := bytes.count (code '\n')

/-- The number of bytes up to and with the end of a block comment. -/
def commentLength? : List UInt8 → Option Nat
  | [] => none
  | b :: rest =>
    if b == code '*' && rest.head? == some (code '/') then some 2
    else (commentLength? rest).map (· + 1)

/-- The number of bytes before the closing quote of a string literal; a byte after a backslash
does not close it. -/
def literalLength? : List UInt8 → Option Nat
  | [] => none
  | b :: rest =>
    if b == code '\x22' then some 0
    else if b == code '\\' then
      match rest with
      | [] => none
      | _ :: rest => (literalLength? rest).map (· + 2)
    else (literalLength? rest).map (· + 1)

/-- Reads a string literal after its opening quote. -/
def scanText (rest : List UInt8) : Except LexicalFault Scanned :=
  match literalLength? rest with
  | none => .error .openText
  | some length =>
    match Text.unescape? (Text.decodeLossy (rest.take length)) with
    | none => .error .badEscape
    | some value => .ok ⟨some (.text (String.ofList value)), length + 1⟩

/-- The number of bytes of a fraction with its point; a point needs a digit after it. -/
def fractionLength : List UInt8 → Nat
  | b :: d :: rest =>
    if b == code '.' && isDigitByte d then (rest.takeWhile isDigitByte).length + 2 else 0
  | _ => 0

/-- The number of bytes of a number literal. -/
def numberLength (bytes : List UInt8) : Nat :=
  let whole := (bytes.takeWhile isDigitByte).length
  whole + fractionLength (bytes.drop whole)

/-- Reads a number literal. -/
def scanNumber (bytes : List UInt8) : Except LexicalFault Scanned :=
  let length := numberLength bytes
  let literal := Text.decodeLossy (bytes.take length)
  match Number.ofDigits? literal with
  | none => .error (.numberRange (String.ofList literal))
  | some value => .ok ⟨some (.number value), length - 1⟩

/-- The token of a name: a reserved word or an identifier. -/
def nameKind (name : String) : TokenKind :=
  match Keyword.ofName? name with
  | some keyword => .keyword keyword
  | none => .identifier name

/-- Whether a module path starts here: one or two dots and a slash. -/
def startsPath : List UInt8 → Bool
  | a :: b :: rest =>
    a == code '.' &&
      (b == code '/' || (b == code '.' && rest.head? == some (code '/')))
  | _ => false

/-- The symbol of two characters that starts here. -/
def pairSymbol? : List UInt8 → Option Symbol
  | a :: b :: _ =>
    (Symbol.pairs.find? fun ((x, y), _) => a == code x && b == code y).map (·.2)
  | _ => none

/-- The symbol of one character that starts here. -/
def singleSymbol? (b : UInt8) : Option Symbol :=
  (Symbol.singles.find? fun (x, _) => b == code x).map (·.2)

/-- Applies the rule for what starts at a byte that is not blank. -/
def scanHead (b : UInt8) (rest : List UInt8) : Except LexicalFault Scanned :=
  let bytes := b :: rest
  if b == code '#' then .ok ⟨none, (rest.takeWhile (· != code '\n')).length⟩
  else if b == code '/' && rest.head? == some (code '*') then
    match commentLength? (rest.drop 1) with
    | none => .error .openComment
    | some length => .ok ⟨none, length + 1⟩
  else if startsPath bytes then
    let length := (rest.takeWhile isPathByte).length
    .ok ⟨some (.path (Text.stringLossy (bytes.take (length + 1)))), length⟩
  else
    match pairSymbol? bytes with
    | some symbol => .ok ⟨some (.symbol symbol), 1⟩
    | none =>
      if isDigitByte b || fractionLength bytes != 0 then scanNumber bytes
      else
        match singleSymbol? b with
        | some symbol => .ok ⟨some (.symbol symbol), 0⟩
        | none =>
          if b == code '\x22' then scanText rest
          else if isNameStart b then
            let length := (rest.takeWhile isNameByte).length
            .ok ⟨some (nameKind (Text.stringLossy (bytes.take (length + 1)))), length⟩
          else .error (.strayByte b)

/-- The lexeme of the bytes of a token. -/
def lexemeOf (bytes : List UInt8) : String :=
  String.ofList (Text.trim (Text.decodeLossy bytes))

/-- Reads tokens to the end of the source, after the tokens already read, latest first. -/
def tokensFrom (read : List Token) (line : Nat) (bytes : List UInt8) :
    Except LexicalError (List Token) :=
  let line := line + newlines (bytes.takeWhile Text.isBlankByte)
  match _split : bytes.dropWhile Text.isBlankByte with
  | [] => .ok (endOn line :: read).reverse
  | b :: rest =>
    match scanHead b rest with
    | .error fault => .error ⟨fault, line⟩
    | .ok scanned =>
      let slice := b :: rest.take scanned.extra
      let read := match scanned.kind with
        | none => read
        | some kind => ⟨kind, lexemeOf slice, line⟩ :: read
      tokensFrom read (line + newlines slice) (rest.drop scanned.extra)
termination_by bytes.length
decreasing_by
  have shorter := (List.dropWhile_suffix Text.isBlankByte (l := bytes)).length_le
  rw [_split, List.length_cons] at shorter
  simp only [List.length_drop]
  omega

/-- The tokens of a source, closed by an end marker. -/
def ofSource (source : List UInt8) : Except LexicalError (List Token) := tokensFrom [] 1 source

end Token

end DecimalScript
