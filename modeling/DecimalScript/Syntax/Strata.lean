import DecimalScript.Syntax.Progress

/-!
# Strata of expressions

A chain of operands and operators is grouped by a grammar with one stratum for each level of
operators: an expression of a stratum is one of the next stratum, or an expression of the same
stratum, an operator of its level, and one of the next stratum. What stands in the chain is given by
tokens, the operands being whatever is read as an operand.
-/

namespace DecimalScript

/-- The operators of a chain with the operands after them. -/
abbrev Links := List (BinaryOp × Expr)

namespace Expr

/-- Tokens that are read as an operand, with all its suffixes, where something follows them. -/
def IsOperand (tokens : List Token) (expr : Expr) : Prop :=
  ∃ next after, Parse.operand Phrase.read (tokens ++ next :: after) = .ok (expr, next :: after)

/-- The tokens of the links of a chain. -/
inductive Linked : Links → List Token → Prop where
  | nil : Linked [] []
  | cons {token : Token} {op : BinaryOp} {tokens more : List Token} {expr : Expr} {links : Links}
      (hop : Parse.binaryOp? token.kind = some op) (hoperand : IsOperand tokens expr)
      (hmore : Linked links more) : Linked ((op, expr) :: links) (token :: (tokens ++ more))

/-- The tree of a chain in a stratum. Operators of one level associate to the left. -/
inductive Stratum : Nat → Expr → Links → Expr → Prop where
  /-- An operand is an expression of every stratum. -/
  | operand {level : Nat} {first : Expr} : Stratum level first [] first
  /-- An expression of a stratum is one of the stratum before it. -/
  | tighter {level : Nat} {first tree : Expr} {links : Links}
      (h : Stratum (level + 1) first links tree) : Stratum level first links tree
  /-- An operator has an expression of its stratum before it and one of the next stratum behind
  it. -/
  | binary {op : BinaryOp} {first second left right : Expr} {links links' : Links}
      (hleft : Stratum op.level first links left)
      (hright : Stratum (op.level + 1) second links' right) :
      Stratum op.level first (links ++ (op, second) :: links') (.binary left.line op left right)

/-- The chain up to the first operator that is not tighter than a level. -/
def tighterLinks (level : Nat) (links : Links) : Links :=
  links.takeWhile fun link => level < link.1.level

/-- The chain from the first operator on that is not tighter than a level. -/
def looserLinks (level : Nat) (links : Links) : Links :=
  links.dropWhile fun link => level < link.1.level

end Expr

end DecimalScript
