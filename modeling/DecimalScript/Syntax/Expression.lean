import DecimalScript.Syntax.Phrase

/-!
# Reading expressions

An expression is a chain of operands and binary operators; an operator is taken only if
it binds tighter than the level asked for. An operand is a primary followed by members,
indices and calls. A minus sign belongs to the number after it. Each rule reads nested
phrases only after it has consumed a token.
-/

namespace DecimalScript

namespace Parse

/-- The operator that a token is, if it is one. -/
def binaryOp? : TokenKind → Option BinaryOp
  | .symbol .plus => some .add
  | .symbol .minus => some .subtract
  | .symbol .star => some .multiply
  | .symbol .slash => some .divide
  | .symbol .percent => some .modulo
  | .symbol .equalEqual => some .equal
  | .symbol .bangEqual => some .notEqual
  | .symbol .less => some .less
  | .symbol .lessEqual => some .lessEqual
  | .symbol .greater => some .greater
  | .symbol .greaterEqual => some .greaterEqual
  | .keyword .andWord => some .both
  | .keyword .orWord => some .either
  | _ => none

variable (read : PhraseReader)

/-- An array after its opening bracket. -/
def arrayRest (line : Nat) : Parse Expr := do
  if ← symbolAt 0 .rightSquare then
    skip 1
    return .array line []
  else return .array line (← read (.elements []))

/-- An object after its opening brace. -/
def objectRest (line : Nat) : Parse Expr := do
  if ← symbolAt 0 .rightBrace then
    skip 1
    return .object line []
  else return .object line (← read (.fields []))

/-- A number after a minus sign. -/
def negatedNumber (line : Nat) : Parse Expr := do
  match (← peek 0).kind with
  | .number value =>
    skip 1
    return .negate line (.literal line (.number value))
  | _ => fail .badMinus

/-- An operand without suffixes. -/
def primary : Parse Expr := do
  let token ← peek 0
  match token.kind with
  | .number value => skip 1; return .literal token.line (.number value)
  | .text value => skip 1; return .literal token.line (.text value)
  | .keyword .trueWord => skip 1; return .literal token.line (.boolean true)
  | .keyword .falseWord => skip 1; return .literal token.line (.boolean false)
  | .identifier name => skip 1; return .var token.line name
  | .symbol .minus => skip 1; negatedNumber token.line
  | .symbol .leftParen =>
    skip 1
    let inner ← read (.expression 0)
    expect .rightParen .unclosedParen
    return inner
  | .symbol .leftSquare => skip 1; arrayRest read token.line
  | .symbol .leftBrace => skip 1; objectRest read token.line
  | _ => fail .missingExpression

/-- The suffixes of an operand; each has the line of the operand. -/
def suffixes (head : Expr) : Parse Expr := do
  match (← peek 0).kind with
  | .symbol .dot =>
    skip 1
    let name ← identifier .member
    read (.suffixes (.member head.line head name))
  | .symbol .leftSquare =>
    skip 1
    let index ← read (.expression 0)
    expect .rightSquare .unclosedIndex
    read (.suffixes (.index head.line head index))
  | .symbol .leftParen =>
    skip 1
    let arguments ← read (.arguments [])
    read (.suffixes (.call head.line head arguments))
  | _ => return head

/-- An operand with its suffixes. -/
def operand : Parse Expr := do read (.suffixes (← primary read))

/-- Operators that bind tighter than a level, with their right operands, after a left operand. -/
def operators (level : Nat) (left : Expr) : Parse Expr := do
  match binaryOp? (← peek 0).kind with
  | none => return left
  | some op =>
    if level < op.level then
      skip 1
      let right ← read (.expression op.level)
      read (.operators level (.binary left.line op left right))
    else return left

/-- An expression whose operators bind tighter than a level. -/
def expression (level : Nat) : Parse Expr := do read (.operators level (← operand read))

/-- Arguments up to the closing parenthesis, after those already read. -/
def arguments (done : List Expr) : Parse (List Expr) := do
  if ← symbolAt 0 .rightParen then
    skip 1
    return done.reverse
  else
    if !done.isEmpty then expect .comma (.missingComma .arguments)
    let argument ← expression read 0
    read (.arguments (argument :: done))

/-- Array elements up to the closing bracket, after those already read. -/
def elements (done : List Expr) : Parse (List Expr) := do
  let element ← expression read 0
  if ← symbolAt 0 .comma then
    skip 1
    if ← symbolAt 0 .rightSquare then fail .arrayTrailingComma
    else read (.elements (element :: done))
  else
    expect .rightSquare .badArray
    return (element :: done).reverse

/-- The name of an object field: an identifier or a text. -/
def fieldName : Parse String := do
  match (← peek 0).kind with
  | .identifier name | .text name => skip 1; return name
  | _ => fail (.missingName .field)

/-- Object fields up to the closing brace, after those already read. -/
def fields (done : List (String × Expr)) : Parse (List (String × Expr)) := do
  let name ← fieldName
  expect .colon (.missingColon .propertyName)
  let value ← read (.expression 0)
  if ← symbolAt 0 .comma then
    skip 1
    if ← symbolAt 0 .rightBrace then fail .objectTrailingComma
    else read (.fields ((name, value) :: done))
  else
    expect .rightBrace .badObject
    return ((name, value) :: done).reverse

/-- Lambda parameters up to the closing parenthesis, after those already read. -/
def lambdaNames (done : List String) : Parse (List String) := do
  if ← symbolAt 0 .rightParen then
    skip 1
    return done.reverse
  else
    if !done.isEmpty then expect .comma (.missingComma .lambdaParameters)
    let name ← identifier .lambdaParameter
    read (.lambdaNames (name :: done))

/-- The tokens after a run of names, each with at most one comma after it. -/
def afterNames : List Token → List Token
  | ⟨.identifier _, _, _⟩ :: ⟨.symbol .comma, _, _⟩ :: rest => afterNames rest
  | ⟨.identifier _, _, _⟩ :: rest => afterNames rest
  | tokens => tokens

/-- Whether a lambda starts here: one name, or names in parentheses, before a fat arrow. -/
def startsLambda (tokens : List Token) : Bool :=
  match (tokenAt tokens 0).kind with
  | .identifier _ => (tokenAt tokens 1).isSymbol .fatArrow
  | .symbol .leftParen =>
    let rest := afterNames (tokens.drop 1)
    (tokenAt rest 0).isSymbol .rightParen && (tokenAt rest 1).isSymbol .fatArrow
  | _ => false

/-- A lambda. -/
def lambda : Parse Expr := do
  let token ← peek 0
  skip 1
  let params ← match token.kind with
    | .identifier name => pure [name]
    | _ => read (.lambdaNames [])
  expect .fatArrow .missingFatArrow
  return .lambda token.line params (← read (.expression 0))

/-- What a declaration binds: a lambda or an expression. -/
def initializer : Parse Expr := fun tokens =>
  (if startsLambda tokens then lambda read else expression read 0) tokens

end Parse

end DecimalScript
