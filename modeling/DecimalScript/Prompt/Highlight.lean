import DecimalScript.Text.Search
import DecimalScript.Text.Utf8
import DecimalScript.Token.Scan

/-!
# Colours of an entered text

A text is cut into coloured parts. The lexeme of each token is looked for in what is
left of the text, and takes the colour of its class; what stands before it and after
the last one has the default colour. A text that has no tokens is one part.
-/

namespace DecimalScript

namespace Prompt

/-- The colours in use. -/
inductive Color where
  | lightBlue | yellow | white | darkGray
  deriving DecidableEq, Repr

/-- The colour of reserved words. -/
def Color.keyword : Color := lightBlue

/-- The colour of literals. -/
def Color.literal : Color := yellow

/-- The colour of names and of what is no token. -/
def Color.plain : Color := white

/-- The colour of operators and punctuation. -/
def Color.operator : Color := darkGray

/-- The colour of a token. -/
def tokenColor : TokenKind → Color
  | .keyword _ => .keyword
  | .text _ | .number _ | .path _ => .literal
  | .identifier _ => .plain
  | .symbol _ | .endMarker => .operator

/-- A part of a text with its colour. -/
abbrev Part := Color × List Char

/-- A part in the default colour, left out when empty. -/
def plainPart (text : List Char) : List Part :=
  if text.isEmpty then [] else [(.plain, text)]

/-- The parts of the rest of a text, given the tokens in it. A token that is not found takes no
part. -/
def colorTokens (text : List Char) : List Token → List Part
  | [] => plainPart text
  | token :: rest =>
    if token.kind = .endMarker then plainPart text
    else
      match Text.cutAt? token.lexeme.toList text with
      | none => colorTokens text rest
      | some (before, after) =>
        plainPart before ++ (tokenColor token.kind, token.lexeme.toList) :: colorTokens after rest

/-- The coloured parts of a text. -/
def highlight (text : String) : List Part :=
  match Token.ofSource (Text.bytesOf text) with
  | .error _ => [(.plain, text.toList)]
  | .ok tokens => colorTokens text.toList tokens

end Prompt

end DecimalScript
