import DecimalScript.Prompt.Completeness

/-!
# Guessed definitions

A definition that no reserved word introduces is only told by its layout and by the tokens next to
its name. So where blocks are counted, definitions are guessed: the word for functions starts one,
and so does each name that opens one.
-/

namespace DecimalScript

namespace Prompt

/-- Whether a token is taken for the start of a definition, given those next to it. -/
def startsDefinition (previous : Option Token) (token : Token) (rest : List Token) : Bool :=
  match token.kind with
  | .keyword .funcWord => true
  | .identifier _ => opensDefinition previous token rest
  | _ => false

/-- The number of tokens that are taken for the start of a definition, given the token before
them. -/
def guessedDefinitions (previous : Option Token) : List Token → Nat
  | [] => 0
  | token :: rest =>
    (if startsDefinition previous token rest then 1 else 0) + guessedDefinitions (some token) rest

end Prompt

end DecimalScript
