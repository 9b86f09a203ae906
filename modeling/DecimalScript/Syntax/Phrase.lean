import DecimalScript.Syntax.Basic
import DecimalScript.Syntax.Fault

/-!
# Phrases and reading them from tokens

A phrase names something to be read from a token list, together with what was already
read of it; the type of the phrase is the type of its result. Reading consumes tokens
from the front, and never the last one. It stops with a fault of syntax, or exhausted when
a given bound on nested phrases was too small for the tokens or the tokens end where more
must follow; exhaustion is never taken for a fault.
-/

namespace DecimalScript

/-- Why reading a phrase stopped. -/
inductive ParseStop where
  /-- The tokens are not a phrase of the language. -/
  | fault (error : SyntaxError)
  /-- The bound on nested phrases was too small, or the tokens ended without an end marker. -/
  | exhausted
  deriving DecidableEq, Repr

/-- Reading from a token list: the result and the tokens that follow it. -/
abbrev Parse (α : Type) := StateT (List Token) (Except ParseStop) α

/-- The phrases that contain each other. Lists hold what was already read, latest first. -/
inductive Phrase : Type → Type where
  /-- An expression whose operators bind tighter than a level. -/
  | expression (level : Nat) : Phrase Expr
  /-- The operators and operands after a left operand. -/
  | operators (level : Nat) (left : Expr) : Phrase Expr
  /-- The members, indices and calls after an expression. -/
  | suffixes (head : Expr) : Phrase Expr
  /-- The arguments of a call up to the closing parenthesis. -/
  | arguments (read : List Expr) : Phrase (List Expr)
  /-- The elements of an array up to the closing bracket; at least one follows. -/
  | elements (read : List Expr) : Phrase (List Expr)
  /-- The fields of an object up to the closing brace; at least one follows. -/
  | fields (read : List (String × Expr)) : Phrase (List (String × Expr))
  /-- The parameters of a function up to the closing parenthesis. -/
  | parameters (read : List Parameter) : Phrase (List Parameter)
  /-- The parameters of a lambda up to the closing parenthesis. -/
  | lambdaNames (read : List String) : Phrase (List String)
  /-- Statements up to a word that ends a block, or the end of the tokens. -/
  | statements (read : Block) : Phrase Block
  /-- The rest of a conditional after its first word, without its closing word. -/
  | branch (line : Nat) : Phrase Stmt
  /-- The cases of a selection. -/
  | cases (read : List (Expr × Block)) : Phrase (List (Expr × Block))

/-- Reads the phrases nested in another one. -/
abbrev PhraseReader := {α : Type} → Phrase α → Parse α

namespace Parse

/-- The token at a position, or an end marker past the end. -/
def tokenAt (tokens : List Token) (position : Nat) : Token :=
  tokens.getD position (Token.endOn 0)

/-- The token at a position ahead. There is nothing ahead of no tokens. -/
def peek (position : Nat) : Parse Token
  | [] => .error .exhausted
  | token :: rest => .ok (tokenAt (token :: rest) position, token :: rest)

/-- Consumes a number of tokens. At least one token must be left after them. -/
def skip (count : Nat) : Parse Unit := fun tokens =>
  if count < tokens.length then .ok ((), tokens.drop count) else .error .exhausted

/-- Stops with a fault at a given token. -/
def failAt {α : Type} (fault : SyntaxFault) (token : Token) : Parse α :=
  fun _ => .error (.fault (.ofToken fault token))

/-- Stops with a fault at the next token. -/
def fail {α : Type} (fault : SyntaxFault) : Parse α := do failAt fault (← peek 0)

/-- Stops because a bound was too small. -/
def exhausted {α : Type} : Parse α := fun _ => .error .exhausted

/-- Whether a given symbol stands at a position ahead. -/
def symbolAt (position : Nat) (symbol : Symbol) : Parse Bool := do
  return (← peek position).isSymbol symbol

/-- Whether a given reserved word comes next. -/
def wordNext (word : Keyword) : Parse Bool := do return (← peek 0).isKeyword word

/-- Consumes a symbol, or stops with a fault. -/
def expect (symbol : Symbol) (fault : SyntaxFault) : Parse Unit := do
  if ← symbolAt 0 symbol then skip 1 else fail fault

/-- Consumes a reserved word, or stops with a fault. -/
def expectWord (word : Keyword) (fault : SyntaxFault) : Parse Unit := do
  if ← wordNext word then skip 1 else fail fault

/-- Consumes an identifier and gives its name, or stops with a fault. -/
def identifier (place : NamePlace) : Parse String := do
  match (← peek 0).kind with
  | .identifier name => skip 1; return name
  | _ => fail (.missingName place)

/-- Consumes a semicolon if one comes next. -/
def skipSemicolon : Parse Unit := do if ← symbolAt 0 .semicolon then skip 1

/-- Reads a phrase, or nothing and no tokens where it has a fault. -/
def attempt {α : Type} (read : Parse α) : Parse (Option α) := fun tokens =>
  match read tokens with
  | .ok (value, rest) => .ok (some value, rest)
  | .error (.fault _) => .ok (none, tokens)
  | .error .exhausted => .error .exhausted

/-- Answers a question about the tokens ahead without consuming any; a fault answers no. -/
def ahead (question : Parse Bool) : Parse Bool := fun tokens =>
  match question tokens with
  | .ok (answer, _) => .ok (answer, tokens)
  | .error (.fault _) => .ok (false, tokens)
  | .error .exhausted => .error .exhausted

/-- A type annotation. -/
def typeName : Parse TypeName := do
  match (← peek 0).kind with
  | .keyword .intWord => skip 1; return .int
  | .keyword .stringWord => skip 1; return .string
  | .identifier name => skip 1; return .named name
  | _ => fail .missingType

/-- A type annotation after a given symbol, or nothing. -/
def typeAfter (symbol : Symbol) : Parse (Option TypeName) := do
  if ← symbolAt 0 symbol then
    skip 1
    return some (← typeName)
  else return none

section

variable {α β : Type} {tokens rest : List Token}

/-- What is read next starts from the tokens that a reading left. -/
theorem bind_of_ok {x : Parse α} {f : α → Parse β} {value : α}
    (h : x tokens = .ok (value, rest)) : (x >>= f) tokens = f value rest := by
  change Except.bind (x tokens) _ = _
  rw [h]
  rfl

/-- Nothing is read after a stop. -/
theorem bind_of_error {x : Parse α} {f : α → Parse β} {stop : ParseStop}
    (h : x tokens = .error stop) : (x >>= f) tokens = .error stop := by
  change Except.bind (x tokens) _ = _
  rw [h]
  rfl

/-- What is made of a value that is read is read. -/
theorem map_of_ok {x : Parse α} {f : α → β} {value : α} (h : x tokens = .ok (value, rest)) :
    (f <$> x) tokens = .ok (f value, rest) := by
  rw [map_eq_pure_bind]
  exact bind_of_ok h

/-- An attempt that succeeds uses what it reads. -/
theorem attempt_of_ok {x : Parse α} {value : α} (h : x tokens = .ok (value, rest)) :
    attempt x tokens = .ok (some value, rest) := by
  rw [attempt, h]

/-- An attempt that has a fault uses nothing. -/
theorem attempt_of_fault {x : Parse α} (h : ∃ error, x tokens = .error (.fault error)) :
    attempt x tokens = .ok (none, tokens) := by
  obtain ⟨error, h⟩ := h
  rw [attempt, h]

end

end Parse

end DecimalScript
