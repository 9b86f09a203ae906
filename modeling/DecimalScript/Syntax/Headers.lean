import DecimalScript.Syntax.Grammar
import DecimalScript.Syntax.Program
import DecimalScript.Syntax.Render

/-!
# Loops and definitions put together from tokens

A loop over items or over a range, as the tokens of its bounds and of its body between its own marks.
No bracket parts the header from the body, so the reader of a header looks into the body: a body may
start like a second bound that a colon closes, or behind two bounds like a step. A definition starts
with one of two words and its name, or with the name alone, where it could still be a call or an
assignment.
-/

namespace DecimalScript

/-- A token of a given kind. -/
abbrev Mark (kind : TokenKind) := {token : Token // token.kind = kind}

/-- The tokens of a loop around its bounds and its body. -/
structure LoopMarks (loopName : String) where
  /-- The first word. -/
  first : Mark (.keyword .forWord)
  /-- The loop variable. -/
  name : Mark (.identifier loopName)
  /-- The word in front of the bounds. -/
  second : Mark (.keyword .inWord)
  /-- The colon between two bounds. -/
  inner : Mark (.symbol .colon)
  /-- The colon behind the header. -/
  outer : Mark (.symbol .colon)
  /-- The closing word. -/
  close : Mark (.keyword .endWord)

namespace LoopMarks

variable {loopName : String} (marks : LoopMarks loopName)

/-- The tokens of a loop from what stands behind its second word. -/
def around (tokens : List Token) : List Token :=
  marks.first.val :: marks.name.val :: marks.second.val :: tokens

/-- The tokens of a loop over items. -/
def overItems (items body : List Token) : List Token :=
  marks.around (items ++ marks.outer.val :: (body ++ [marks.close.val]))

/-- The tokens of a loop over a range. -/
def overRange (start stop body : List Token) : List Token :=
  marks.around (start ++ marks.inner.val :: (stop ++ marks.outer.val :: (body ++ [marks.close.val])))

/-- The marks of a loop that is written on one line. -/
def onLine (line : Nat) (loopName : String) : LoopMarks loopName where
  first := ⟨.word line .forWord, rfl⟩
  name := ⟨.name line loopName, rfl⟩
  second := ⟨.word line .inWord, rfl⟩
  inner := ⟨.sign line .colon, rfl⟩
  outer := ⟨.sign line .colon, rfl⟩
  close := ⟨.word line .endWord, rfl⟩

end LoopMarks

/-- How the definition of a name may start, up to the name, with the line of the first token. -/
inductive Opening (name : String) : List Token → Nat → Prop
  /-- With the word for functions. -/
  | func (word : Mark (.keyword .funcWord)) (id : Mark (.identifier name)) :
      Opening name [word.val, id.val] word.val.line
  /-- With the word for declarations. -/
  | declared (word : Mark (.keyword .letWord)) (id : Mark (.identifier name)) :
      Opening name [word.val, id.val] word.val.line
  /-- With no word. -/
  | bare (id : Mark (.identifier name)) : Opening name [id.val] id.val.line

/-- Whether a statement is a function definition. -/
def Stmt.isDefinition : Stmt → Bool
  | .define _ _ _ _ _ => true
  | _ => false

/-- The tokens are an expression from end to end. -/
def Expr.Spans (tokens : List Token) (expr : Expr) : Prop :=
  ∃ last : Token, last.kind = .endMarker ∧ ofTokens 0 (tokens ++ [last]) = .ok (expr, [last])

/-- Whether a statement is a function definition in which nothing has a type. -/
def Stmt.isUntypedDefinition : Stmt → Bool
  | .define _ _ params none _ => params.all fun param => param.typed.isNone
  | _ => false

namespace Block

/-- The tokens are a block from end to end. -/
def Spans (tokens : List Token) (block : Block) : Prop :=
  (∀ token ∈ tokens, token.kind ≠ .endMarker) ∧
    ∃ last : Token, last.kind = .endMarker ∧ ofTokens (tokens ++ [last]) = .ok block

/-- Whether a block starts like a bound: with a function definition that starts with its name and in
which nothing has a type. Up to its colon this is a call. -/
def startsLikeBound (tokens : List Token) (block : Block) : Bool :=
  (Parse.tokenAt tokens 0).kind.isIdentifier && block.head?.any Stmt.isUntypedDefinition

/-- Whether a block starts like a step: with a number or a minus sign. -/
def startsLikeStep (tokens : List Token) : Bool := (Parse.tokenAt tokens 0).kind.startsStep

end Block

end DecimalScript
