import DecimalScript.Text.Blank
import DecimalScript.Text.Utf8
import DecimalScript.Token.Scan

/-!
# Completeness of an entered text

An entered text is held back while something in it is open: a comment or literal, a
bracket, or a block that lacks its closing word. Brackets and blocks are only counted,
so a text that is wrong in another way counts as complete and goes on to be reported.
-/

namespace DecimalScript

namespace Prompt

/-- The tokens after the parenthesis that closes the open ones. -/
def afterParens (depth : Nat) : List Token → Option (List Token)
  | [] => none
  | token :: rest =>
    if token.isSymbol .leftParen then afterParens (depth + 1) rest
    else if token.isSymbol .rightParen then
      if depth = 1 then some rest else afterParens (depth - 1) rest
    else afterParens depth rest

/-- Whether a statement may start at a token, given the one before it. -/
def startsStatement (previous : Option Token) (token : Token) : Bool :=
  match previous with
  | none => true
  | some p =>
    p.line != token.line || p.isSymbol .semicolon || p.isKeyword .endWord ||
      p.isKeyword .letWord

/-- Whether a name opens a definition: it may start a statement, and a colon or an arrow follows
the parentheses after it. -/
def opensDefinition (previous : Option Token) (token : Token) (rest : List Token) : Bool :=
  startsStatement previous token && (rest.head?.any (·.isSymbol .leftParen)) &&
    match afterParens 0 rest with
    | some (next :: _) => next.isSymbol .colon || next.isSymbol .arrow
    | _ => false

/-- By how much a token changes the number of open blocks. -/
def blockChange (previous : Option Token) (token : Token) (rest : List Token) : Int :=
  match token.kind with
  | .keyword .ifWord => if previous.any (·.isKeyword .elseWord) then 0 else 1
  | .keyword .whileWord | .keyword .forWord | .keyword .switchWord | .keyword .tryWord
  | .keyword .funcWord => 1
  | .keyword .endWord => -1
  | .identifier _ => if opensDefinition previous token rest then 1 else 0
  | _ => 0

/-- By how much a token changes the number of open brackets. -/
def bracketChange (kind : TokenKind) : Int :=
  match kind with
  | .symbol .leftParen | .symbol .leftSquare | .symbol .leftBrace => 1
  | .symbol .rightParen | .symbol .rightSquare | .symbol .rightBrace => -1
  | _ => 0

/-- The number of blocks left open by tokens, given the token before them. -/
def openBlocks (previous : Option Token) : List Token → Int
  | [] => 0
  | token :: rest => blockChange previous token rest + openBlocks (some token) rest

/-- The number of brackets left open by tokens. -/
def openBrackets : List Token → Int
  | [] => 0
  | token :: rest => bracketChange token.kind + openBrackets rest

/-- Whether an entered text is complete. -/
def isComplete (text : String) : Bool :=
  if (Text.trim text.toList).isEmpty then true
  else
    match Token.ofSource (Text.bytesOf text) with
    | .error error => !error.fault.isOpen
    | .ok tokens => openBlocks none tokens ≤ 0 && openBrackets tokens ≤ 0

end Prompt

end DecimalScript
