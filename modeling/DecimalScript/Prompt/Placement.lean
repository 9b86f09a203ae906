import DecimalScript.Prompt.Highlight
import DecimalScript.Token.Layout

/-!
# Colours in their places

Where the tokens of a text stand is told by its cuts. The colours of a text are in their places if
each token has one part with its own bytes and its own colour, and all else has the default colour.
Since lexemes are looked for, a token comes to its place where its lexeme does not occur earlier
behind the token before it.
-/

namespace DecimalScript

namespace Prompt

/-- All tokens up to the end marker are found, each in what is left behind the one before it. -/
def FindsAll (text : List Char) : List Token → Prop
  | [] => True
  | token :: rest =>
    if token.kind = .endMarker then True
    else ∃ before after, Text.cutAt? token.lexeme.toList text = some (before, after) ∧
      FindsAll after rest

/-- The part of a token. -/
def tokenPart (token : Token) : Part := (tokenColor token.kind, token.lexeme.toList)

/-- Certain bytes are in parts with the default colour. -/
structure PlainParts (bytes : List UInt8) (parts : List Part) : Prop where
  /-- The parts have the default colour. -/
  color : ∀ part ∈ parts, part.1 = .plain
  /-- The bytes of the parts are the given ones. -/
  bytes : Text.utf8 (parts.flatMap (·.2)) = bytes

/-- Parts have the tokens of cuts in their places: one part covers the slice of a token and has its
colour, and the gaps and the bytes behind the last token are in parts with the default colour. -/
inductive ColorsInPlace : List Token.Cut → (last : List UInt8) → List Part → Prop where
  /-- No token is left. -/
  | last {last : List UInt8} {parts : List Part} :
    PlainParts last parts → ColorsInPlace [] last parts
  /-- The next token has its part. -/
  | token {cut : Token.Cut} {cuts : List Token.Cut} {last : List UInt8} {before after : List Part}
      {text : List Char} :
    PlainParts cut.gap before → Text.utf8 text = cut.slice → ColorsInPlace cuts last after →
      ColorsInPlace (cut :: cuts) last (before ++ (tokenColor cut.token.kind, text) :: after)

end Prompt

/-- The lexeme of a token is all of its slice and does not begin earlier in the gap before it. -/
def Token.Cut.StandsFirst (cut : Token.Cut) : Prop :=
  Text.cutAt? cut.token.lexeme.toList (Text.decodeLossy cut.gap ++ Text.decodeLossy cut.slice) =
    some (Text.decodeLossy cut.gap, [])

instance (cut : Token.Cut) : Decidable cut.StandsFirst :=
  inferInstanceAs (Decidable (_ = _))

end DecimalScript
