import DecimalScript.Number.Basic

/-!
# Tokens

A token is a symbol, a reserved word, or carries a payload: the name of an identifier,
the decoded text of a literal, a number, or a module path. Every token list ends with
one end marker. A token also keeps the text it was read from and its line, which
messages refer to.
-/

namespace DecimalScript

/-- Punctuation and operators. -/
inductive Symbol where
  | leftParen | rightParen | leftBrace | rightBrace | leftSquare | rightSquare
  | comma | dot | colon | semicolon
  | plus | minus | star | slash | percent
  | equal | greater | less
  | bangEqual | equalEqual | greaterEqual | lessEqual | arrow | fatArrow
  deriving DecidableEq, Repr

namespace Symbol

/-- The symbols of two characters with their spelling; they are tried before single ones. -/
def pairs : List ((Char × Char) × Symbol) := [
  (('=', '='), equalEqual), (('!', '='), bangEqual), (('<', '='), lessEqual),
  (('>', '='), greaterEqual), (('-', '>'), arrow), (('=', '>'), fatArrow)]

/-- The symbols of one character with their spelling. -/
def singles : List (Char × Symbol) := [
  ('(', leftParen), (')', rightParen), ('\x7b', leftBrace), ('\x7d', rightBrace),
  ('[', leftSquare), (']', rightSquare), (',', comma), ('.', dot), (':', colon),
  (';', semicolon), ('+', plus), ('-', minus), ('*', star), ('/', slash), ('%', percent),
  ('=', equal), ('<', less), ('>', greater)]

end Symbol

/-- Reserved words. -/
inductive Keyword where
  | andWord | orWord | funcWord | letWord | ifWord | elseWord | forWord | whileWord | endWord
  | returnWord | switchWord | caseWord | defaultWord | tryWord | catchWord | printWord | inWord
  | useWord | asWord | breakWord | continueWord | trueWord | falseWord | intWord | stringWord
  deriving DecidableEq, Repr

namespace Keyword

/-- Every spelling of a reserved word; the truth values have two each. -/
def spellings : List (String × Keyword) := [
  ("and", andWord), ("or", orWord), ("func", funcWord), ("let", letWord), ("if", ifWord),
  ("else", elseWord), ("for", forWord), ("while", whileWord), ("end", endWord),
  ("return", returnWord), ("switch", switchWord), ("case", caseWord),
  ("default", defaultWord), ("try", tryWord), ("catch", catchWord), ("print", printWord),
  ("in", inWord), ("use", useWord), ("as", asWord), ("break", breakWord),
  ("continue", continueWord), ("True", trueWord), ("true", trueWord), ("False", falseWord),
  ("false", falseWord), ("int", intWord), ("string", stringWord)]

/-- The reserved word a name spells, if it is reserved. -/
def ofName? (name : String) : Option Keyword := spellings.lookup name

end Keyword

/-- What a token is, with its payload. -/
inductive TokenKind where
  /-- Punctuation or an operator. -/
  | symbol (symbol : Symbol)
  /-- A reserved word. -/
  | keyword (keyword : Keyword)
  /-- A name that is not reserved. -/
  | identifier (name : String)
  /-- A string literal, by the text it stands for. -/
  | text (value : String)
  /-- A number literal. -/
  | number (value : Number)
  /-- A module path that starts with a dot. -/
  | path (value : String)
  /-- The end of the source. -/
  | endMarker
  deriving DecidableEq

/-- A token with the text it was read from and the line it starts on. -/
structure Token where
  /-- What the token is. -/
  kind : TokenKind
  /-- The text it was read from, without white space around it. -/
  lexeme : String
  /-- Its line, counted from one. -/
  line : Nat
  deriving DecidableEq

namespace TokenKind

/-- Whether a token is a reserved word. -/
def isKeyword : TokenKind → Bool
  | keyword _ => true
  | _ => false

/-- Whether a token is an identifier. -/
def isIdentifier : TokenKind → Bool
  | identifier _ => true
  | _ => false

/-- Whether a token is a number literal. -/
def isNumber : TokenKind → Bool
  | number _ => true
  | _ => false

end TokenKind

namespace Token

/-- The end marker of a source whose last line is `line`. -/
def endOn (line : Nat) : Token := ⟨.endMarker, "", line⟩

/-- Whether a token is a given symbol. -/
def isSymbol (t : Token) (s : Symbol) : Bool := t.kind == .symbol s

/-- Whether a token is a given reserved word. -/
def isKeyword (t : Token) (k : Keyword) : Bool := t.kind == .keyword k

end Token

end DecimalScript
