import DecimalScript.Syntax.Program

/-!
# Progress of reading

Nested phrases start with fewer tokens than the phrase around them, so a bound on nesting
that depends on the number of tokens only is no restriction. A guarded reader reads a
nested phrase only where it advances in this way and is exhausted elsewhere: where it
reads the same, each turn of a list and each level of nesting has consumed a token before
the next one starts.
-/

namespace DecimalScript

namespace Phrase

variable {α β : Type}

/-- The nesting that a phrase may need for a number of tokens. -/
def need : Phrase α → Nat → Nat
  | .branch _, count => 2 * count + 2
  | _, count => 2 * count + 1

/-- Reads a phrase with as much nesting as it may need. -/
def read : PhraseReader := fun phrase tokens => parse (phrase.need tokens.length) phrase tokens

/-- Whether a nested phrase starts with fewer tokens than the phrase around it. The rest of a
conditional has consumed its first word already, so its condition may start where it does. -/
def advances (phrase : Phrase α) (tokens : List Token) (nested : Phrase β) (rest : List Token) :
    Bool :=
  match phrase, nested with
  | .branch _, .expression _ => rest.length ≤ tokens.length
  | _, _ => rest.length < tokens.length

/-- Reads a nested phrase if it starts with fewer tokens than the phrase around it. -/
def guarded (read : PhraseReader) (phrase : Phrase α) (tokens : List Token) : PhraseReader :=
  fun nested rest =>
    if phrase.advances tokens nested rest then read nested rest else .error .exhausted

end Phrase

/-- An expression at the front of a token list, and how many tokens it takes. -/
def Expr.countedOfTokens (level : Nat) (tokens : List Token) : Except ParseStop (Expr × Nat) := do
  let (expr, rest) ← ofTokens level tokens
  return (expr, tokens.length - rest.length)

end DecimalScript
