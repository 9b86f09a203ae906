import DecimalScript.Token.Scan

/-!
# The layout of a source

A source is cut into the slices of its tokens and the gaps before them. A gap holds blank bytes
and comments only. A source that cannot be split into tokens is cut up to the construct where
reading stops, which is told by its own bytes.
-/

namespace DecimalScript

namespace Token

/-- Bytes that hold no token: blank bytes, line comments with their line feed, and block comments.
If the source ends after them, a line comment at their end needs no line feed. -/
inductive Gap : (sourceEnds : Bool) → List UInt8 → Prop where
  /-- Nothing at all. -/
  | nil {sourceEnds : Bool} : Gap sourceEnds []
  /-- A blank byte. -/
  | blank {sourceEnds : Bool} {b : UInt8} {rest : List UInt8} :
    Text.isBlankByte b = true → Gap sourceEnds rest → Gap sourceEnds (b :: rest)
  /-- A line comment that a line feed closes. -/
  | line {sourceEnds : Bool} {body rest : List UInt8} :
    code '\n' ∉ body → Gap sourceEnds rest →
      Gap sourceEnds (code '#' :: (body ++ code '\n' :: rest))
  /-- A block comment up to the first end mark. -/
  | block {sourceEnds : Bool} {body rest : List UInt8} :
    ¬[code '*', code '/'] <:+: body → Gap sourceEnds rest →
      Gap sourceEnds (code '/' :: code '*' :: (body ++ code '*' :: code '/' :: rest))
  /-- A line comment that the end of the source closes. -/
  | lastLine {body : List UInt8} : code '\n' ∉ body → Gap true (code '#' :: body)

/-- Bytes that end any token before them: none, or a blank byte first. -/
def EndsToken (bytes : List UInt8) : Prop := ∀ b ∈ bytes.head?, Text.isBlankByte b = true

/-- A gap that starts with a blank byte. -/
def Separates (gap : List UInt8) : Prop :=
  Gap false gap ∧ ∃ b ∈ gap.head?, Text.isBlankByte b = true

/-- The bytes of a slice are read as one token when certain bytes follow it. -/
def Reads (kind : TokenKind) (slice after : List UInt8) : Prop :=
  ∃ b rest, slice = b :: rest ∧ Text.isBlankByte b = false ∧
    scanHead b (rest ++ after) = .ok ⟨some kind, rest.length⟩

/-- A token with the bytes it was read from and the gap before them. -/
structure Cut where
  /-- The bytes between the token before and this one. -/
  gap : List UInt8
  /-- The bytes of the token. -/
  slice : List UInt8
  /-- The token. -/
  token : Token

/-- The bytes of a cut in the source. -/
def Cut.bytes (cut : Cut) : List UInt8 := cut.gap ++ cut.slice

/-- A token is read alone from bytes. -/
def ReadAlone (kind : TokenKind) (lexeme : String) (bytes : List UInt8) : Prop :=
  ofSource bytes = .ok [⟨kind, lexeme, 1⟩, endOn (1 + newlines bytes)]

/-- The lexeme of a token is its slice, and the same token is read from it. -/
structure Cut.Faithful (cut : Cut) : Prop where
  /-- The lexeme has the bytes of the slice. -/
  slice : Text.bytesOf cut.token.lexeme = cut.slice
  /-- The same token is read from it. -/
  again : ReadAlone cut.token.kind cut.token.lexeme (Text.bytesOf cut.token.lexeme)

/-- A source starts with cuts, and `rest` is what follows them. -/
structure Tiles (source : List UInt8) (cuts : List Cut) (rest : List UInt8) : Prop where
  /-- Gaps and slices, in the order of the tokens, make up the source. -/
  bytes : source = cuts.flatMap Cut.bytes ++ rest
  /-- Between tokens stand blank bytes and comments only. -/
  gaps : ∀ cut ∈ cuts, Gap false cut.gap
  /-- A slice is what its token is read from, in front of all that follows it. -/
  reads : ∀ before cut after, cuts = before ++ cut :: after →
    Reads cut.token.kind cut.slice (after.flatMap Cut.bytes ++ rest)
  /-- A token keeps the text of its slice. -/
  lexemes : ∀ cut ∈ cuts, cut.token.lexeme = lexemeOf cut.slice
  /-- The line of a token is one more than the line feeds before its slice. -/
  lines : ∀ before cut after, cuts = before ++ cut :: after →
    cut.token.line = 1 + newlines (before.flatMap Cut.bytes ++ cut.gap)

end Token

/-- What is read of a token without the white space at its end, which only a module path can
have. -/
def TokenKind.trimmed : TokenKind → TokenKind
  | path value => path (Text.trimmed value)
  | kind => kind

/-- The bytes that start with a construct that has a given fault. -/
def LexicalFault.StartsAt : LexicalFault → List UInt8 → Prop
  | openComment, bytes => ∃ body, bytes = Token.code '/' :: Token.code '*' :: body ∧
      ¬[Token.code '*', Token.code '/'] <:+: body
  | openText, bytes => ∃ body, bytes = Token.code '\x22' :: body ∧
      Token.literalLength? body = none
  | badEscape, bytes => ∃ body rest, bytes = Token.code '\x22' :: (body ++ rest) ∧
      Token.literalLength? (body ++ rest) = some body.length ∧
      Text.unescape? (Text.decodeLossy body) = none
  | numberRange literal, bytes => ∃ digits rest, bytes = digits ++ rest ∧ digits ≠ [] ∧
      (∀ b ∈ digits, Token.isDigitByte b = true ∨ b = Token.code '.') ∧
      literal = Text.stringLossy digits ∧ Number.ofDigits? literal.toList = none
  | strayByte byte, bytes => bytes.head? = some byte ∧ Text.isBlankByte byte = false ∧
      byte ≠ Token.code '#' ∧ byte ≠ Token.code '\x22' ∧ Token.isNameByte byte = false ∧
      Token.singleSymbol? byte = none

end DecimalScript
