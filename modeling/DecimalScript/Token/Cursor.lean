import DecimalScript.Token.Scan

/-!
# Tokens by position

The same tokens, read by a program that holds the source as an array: it keeps a position, its loops
move the position on, and each access to a byte or to a slice is checked against the length. An
access out of range, and a source that is not read to its end in the rounds allowed, are outcomes of
their own.
-/

namespace DecimalScript

namespace Token

/-- Why a reader with a position stops early. -/
inductive Halt where
  /-- The source cannot be split into tokens. -/
  | fault (error : LexicalError)
  /-- A byte or a slice outside the source is asked for. -/
  | outOfRange
  /-- The rounds allowed are used up. -/
  | exhausted
  deriving DecidableEq

/-- What a round reads. -/
inductive Piece where
  /-- A token. -/
  | token (kind : TokenKind)
  /-- A comment. -/
  | comment
  /-- The end of the source. -/
  | sourceEnd
  deriving DecidableEq

namespace Cursor

/-! ### Checked accesses -/

/-- The byte at a position. -/
def byteAt (bytes : List UInt8) (position : Nat) : Except Halt UInt8 :=
  match bytes[position]? with
  | some b => .ok b
  | none => .error .outOfRange

/-- The bytes from a position on. -/
def suffixAt (bytes : List UInt8) (position : Nat) : Except Halt (List UInt8) :=
  if position ≤ bytes.length then .ok (bytes.drop position) else .error .outOfRange

/-- The bytes from one position up to another one. -/
def slice (bytes : List UInt8) (start stop : Nat) : Except Halt (List UInt8) :=
  if start ≤ stop ∧ stop ≤ bytes.length then .ok ((bytes.drop start).take (stop - start))
  else .error .outOfRange

/-! ### Loops over positions -/

/-- Moves a position on over the bytes of a class. -/
def runEnd (p : UInt8 → Bool) (bytes : List UInt8) (position : Nat) : Except Halt Nat := do
  if position < bytes.length then
    let b ← byteAt bytes position
    if p b then runEnd p bytes (position + 1) else return position
  else return position
termination_by bytes.length - position

/-- Moves a position on to the closing quote of a string literal. A byte after a backslash is
skipped, whether it is there or not, so that the position may come to stand behind the end. -/
def literalEnd (bytes : List UInt8) (position : Nat) : Except Halt Nat := do
  if position < bytes.length then
    let b ← byteAt bytes position
    if b == code '\x22' then return position
    else if b == code '\\' then literalEnd bytes (position + 2)
    else literalEnd bytes (position + 1)
  else return position
termination_by bytes.length - position

/-! ### One round -/

/-- Whether a point with a digit after it stands at a position. -/
def fractionAt (bytes : List UInt8) (position : Nat) : Except Halt Bool := do
  if position + 1 < bytes.length then
    let b ← byteAt bytes position
    if b == code '.' then return isDigitByte (← byteAt bytes (position + 1)) else return false
  else return false

/-- The symbol of two characters at a position. -/
def pairAt (bytes : List UInt8) (position : Nat) : Except Halt (Option Symbol) := do
  if position + 1 < bytes.length then return pairSymbol? (← slice bytes position (position + 2))
  else return none

/-- Reads the string literal whose opening quote is at a position. -/
def textAt (bytes : List UInt8) (position line : Nat) : Except Halt (Nat × Piece) := do
  let stop ← literalEnd bytes (position + 1)
  if bytes.length ≤ stop then throw (.fault ⟨.openText, line⟩)
  else
    match Text.unescape? (Text.decodeLossy (← slice bytes (position + 1) stop)) with
    | none => throw (.fault ⟨.badEscape, line⟩)
    | some value => return (stop + 1, .token (.text (String.ofList value)))

/-- Moves a position on over a number literal. -/
def numberEnd (bytes : List UInt8) (position : Nat) : Except Halt Nat := do
  let whole ← runEnd isDigitByte bytes position
  if ← fractionAt bytes whole then runEnd isDigitByte bytes (whole + 1) else return whole

/-- Reads the number literal at a position. -/
def numberAt (bytes : List UInt8) (position line : Nat) : Except Halt (Nat × Piece) := do
  let stop ← numberEnd bytes position
  let literal := Text.decodeLossy (← slice bytes position stop)
  match Number.ofDigits? literal with
  | none => throw (.fault ⟨.numberRange (String.ofList literal), line⟩)
  | some value => return (stop, .token (.number value))

/-- Reads the name at a position. -/
def nameAt (bytes : List UInt8) (position : Nat) : Except Halt (Nat × Piece) := do
  let stop ← runEnd isNameByte bytes (position + 1)
  return (stop, .token (nameKind (Text.stringLossy (← slice bytes position stop))))

/-- Reads a symbol of one character, a literal or a name. A point that starts a number is no
symbol. -/
def plainPieceAt (bytes : List UInt8) (position line : Nat) : Except Halt (Nat × Piece) := do
  let b ← byteAt bytes position
  let fraction ← fractionAt bytes position
  match if fraction then none else singleSymbol? b with
  | some symbol => return (position + 1, .token (.symbol symbol))
  | none =>
    if b == code '\x22' then textAt bytes position line
    else if isDigitByte b || fraction then numberAt bytes position line
    else if isNameStart b then nameAt bytes position
    else throw (.fault ⟨.strayByte b, line⟩)

/-- Reads what starts at a position: what needs more than one byte to be told comes first. -/
def pieceAt (bytes : List UInt8) (position line : Nat) : Except Halt (Nat × Piece) := do
  let here ← suffixAt bytes position
  if (← byteAt bytes position) == code '#' then
    return (position + (here.takeWhile (· != code '\n')).length, .comment)
  else if [code '/', code '*'].isPrefixOf here then
    match commentLength? (← suffixAt bytes (position + 2)) with
    | none => throw (.fault ⟨.openComment, line⟩)
    | some length => return (position + 2 + length, .comment)
  else if startsPath here then
    let length := (here.takeWhile isPathByte).length
    let path ← slice bytes position (position + length)
    return (position + length, .token (.path (Text.stringLossy path)))
  else
    match ← pairAt bytes position with
    | some symbol => return (position + 2, .token (.symbol symbol))
    | none => plainPieceAt bytes position line

/-- Reads over blank bytes and then what follows them, and tells how many bytes it has read. -/
def nextPiece (bytes : List UInt8) (line : Nat) : Except Halt (Nat × Piece) := do
  let position := (bytes.takeWhile Text.isBlankByte).length
  if position == bytes.length then return (position, .sourceEnd)
  else
    let blanks ← slice bytes 0 position
    pieceAt bytes position (line + newlines blanks)

/-! ### All rounds -/

/-- Reads pieces from a position on, after the tokens already read, latest first. The token of a
piece is on the line where its leading blank bytes end. -/
def tokensAt (source : List UInt8) :
    (rounds : Nat) → (read : List Token) → (line position : Nat) → Except Halt (List Token)
  | 0, _, _, _ => throw .exhausted
  | rounds + 1, read, line, position => do
    let (count, piece) ← nextPiece (← suffixAt source position) line
    let text ← slice source position (position + count)
    let next := line + newlines text
    match piece with
    | .sourceEnd => return (endOn next :: read).reverse
    | .comment => tokensAt source rounds read next (position + count)
    | .token kind =>
      let leading := newlines (text.takeWhile Text.isBlankByte)
      tokensAt source rounds (⟨kind, lexemeOf text, line + leading⟩ :: read) next (position + count)

/-- The tokens of a source, if a number of rounds suffices to read them. -/
def tokens (source : List UInt8) (rounds : Nat) : Except Halt (List Token) :=
  tokensAt source rounds [] 1 0

end Cursor

end Token

end DecimalScript
