import DecimalScript.Syntax.Statement

/-!
# Programs of a token list

Every rule reads nested phrases only from strictly fewer tokens than it was given, save
that a conditional starts with its condition. Two levels of nesting for each token and
one besides are bound enough for any token list.
-/

namespace DecimalScript

namespace Phrase

/-- The rule of a phrase, given how nested phrases are read. -/
def rule (read : PhraseReader) : {α : Type} → Phrase α → Parse α
  | _, .expression level => Parse.expression read level
  | _, .operators level left => Parse.operators read level left
  | _, .suffixes head => Parse.suffixes read head
  | _, .arguments done => Parse.arguments read done
  | _, .elements done => Parse.elements read done
  | _, .fields done => Parse.fields read done
  | _, .parameters done => Parse.parameters read done
  | _, .lambdaNames done => Parse.lambdaNames read done
  | _, .statements done => Parse.statements read done
  | _, .branch line => Parse.branch read line
  | _, .cases done => Parse.cases read done

/-- Reads a phrase with a bound on the nesting of phrases. -/
def parse : Nat → PhraseReader
  | 0, _, _ => Parse.exhausted
  | depth + 1, _, phrase => rule (fun nested => parse depth nested) phrase

end Phrase

/-- The bound on nested phrases that suffices for a token list. -/
def nestingBound (tokens : List Token) : Nat := 2 * tokens.length + 1

/-- An expression at the front of a token list, and the tokens after it. -/
def Expr.ofTokens (level : Nat) (tokens : List Token) : Except ParseStop (Expr × List Token) :=
  Phrase.parse (nestingBound tokens) (.expression level) tokens

/-- The program that a token list is. Only the end marker may stand after its statements. -/
def Block.ofTokens (tokens : List Token) : Except ParseStop Block := do
  let (program, rest) ← Phrase.parse (nestingBound tokens) (.statements []) tokens
  let next := Parse.tokenAt rest 0
  if next.kind == .endMarker then return program
  else throw (.fault (.ofToken .outsideBlock next))

end DecimalScript
