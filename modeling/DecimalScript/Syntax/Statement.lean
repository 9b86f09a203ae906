import DecimalScript.Syntax.Expression

/-!
# Reading statements

The first token decides the kind of a statement, except after an identifier, where a
definition, three kinds of assignment and an expression compete: the token after the
name, and for a definition and an indexed assignment the tokens after the bracket,
decide between them. Loops over a range are told from loops over items by a second
expression that a colon closes.
-/

namespace DecimalScript

namespace Parse

variable (read : PhraseReader)

/-- Parameters up to the closing parenthesis, after those already read. -/
def parameters (done : List Parameter) : Parse (List Parameter) := do
  if ← symbolAt 0 .rightParen then
    skip 1
    return done.reverse
  else
    if !done.isEmpty then expect .comma (.missingComma .parameters)
    let name ← identifier .parameter
    let typed ← typeAfter .colon
    read (.parameters (⟨name, typed⟩ :: done))

/-- A block up to and with its closing word. -/
def closedBlock (construct : Construct) : Parse Block := do
  let body ← read (.statements [])
  expectWord .endWord (.unclosed construct)
  return body

/-- A definition from its name on; the line is that of the first token of the statement. -/
def definition (line : Nat) : Parse Stmt := do
  let name ← identifier .function
  expect .leftParen .missingParameters
  let params ← read (.parameters [])
  let returnType ← typeAfter .arrow
  expect .colon (.missingColon .functionSignature)
  let body ← closedBlock read .functionBody
  return .define line name params returnType body

/-- The target of an import. -/
def moduleRef : Parse ModuleRef := do
  match (← peek 0).kind with
  | .path text => skip 1; return .path text
  | .text text => skip 1; return .quoted text
  | .identifier name => skip 1; return .bare name
  | _ => fail .missingTarget

/-- An import after its first word. -/
def useRest (line : Nat) : Parse Stmt := do
  let target ← moduleRef
  expectWord .asWord .missingAs
  let aliasName ← identifier .aliasName
  skipSemicolon
  return .use line target aliasName

/-- A declaration after its first word: a function if a parenthesis follows the name. -/
def letRest (line : Nat) : Parse Stmt := do
  if (← peek 0).kind.isIdentifier && (← symbolAt 1 .leftParen) then definition read line
  else
    let name ← identifier .letBinding
    let typed ← typeAfter .colon
    expect .equal .missingEqual
    let value ← initializer read
    expect .semicolon (.missingSemicolon .letBinding)
    return .declare line name typed value

/-- The rest of a conditional after its first word. A conditional right after `else` belongs to
the same chain and shares its closing word. -/
def branch (line : Nat) : Parse Stmt := do
  let condition ← read (.expression 0)
  expect .colon (.missingColon .ifCondition)
  let whenTrue ← read (.statements [])
  if ← wordNext .elseWord then
    skip 1
    if ← wordNext .ifWord then
      let token ← peek 0
      skip 1
      let nested ← read (.branch token.line)
      return .branch line condition whenTrue (some [nested])
    else
      expect .colon (.missingColon .elseWord)
      let whenFalse ← read (.statements [])
      return .branch line condition whenTrue (some whenFalse)
  else return .branch line condition whenTrue none

/-- A conditional after its first word, with its closing word. -/
def ifRest (line : Nat) : Parse Stmt := do
  let stmt ← read (.branch line)
  expectWord .endWord (.unclosed .ifStatement)
  return stmt

/-- A conditional loop after its first word. -/
def whileRest (line : Nat) : Parse Stmt := do
  let condition ← read (.expression 0)
  expect .colon (.missingColon .whileCondition)
  return .repeatWhile line condition (← closedBlock read .whileLoop)

/-- The second expression of a range, if a colon closes it. -/
def rangeStop : Parse (Option Expr) := attempt do
  let stop ← read (.expression 0)
  if ← symbolAt 0 .colon then return stop else fail (.missingColon .forRange)

/-- Whether a step follows: a colon and then a number or a negated number. -/
def stepNext : Parse Bool := do
  if ← symbolAt 0 .colon then
    match (← peek 1).kind with
    | .number _ => return true
    | .symbol .minus => return (← peek 2).kind.isNumber
    | _ => return false
  else return false

/-- The iteration over a range with a step; a written negation counts down. -/
def steppedIteration (start stop step : Expr) : Iteration :=
  match step with
  | .negate _ _ => .countdown start stop step
  | _ => .step start stop step

/-- The iteration of a loop after its first expression and the colon that closes it. -/
def iterationRest (first : Expr) : Parse Iteration := do
  match ← rangeStop read with
  | none => return .items first
  | some stop =>
    let iteration ←
      if ← stepNext then
        skip 1
        let step ← read (.expression 0)
        pure (steppedIteration first stop step)
      else pure (.range first stop)
    expect .colon (.missingColon .forRange)
    return iteration

/-- A loop over numbers or items after its first word. -/
def forRest (line : Nat) : Parse Stmt := do
  let name ← identifier .loopName
  expectWord .inWord .missingIn
  let first ← read (.expression 0)
  expect .colon (.missingColon .forStart)
  let iteration ← iterationRest read first
  return .repeatOver line name iteration (← closedBlock read .forLoop)

/-- The cases of a selection, after those already read. -/
def cases (done : List (Expr × Block)) : Parse (List (Expr × Block)) := do
  if ← wordNext .caseWord then
    skip 1
    let value ← read (.expression 0)
    expect .colon (.missingColon .caseValue)
    let body ← read (.statements [])
    read (.cases ((value, body) :: done))
  else return done.reverse

/-- The block for the case that no case applies, if there is one. -/
def otherwise : Parse (Option Block) := do
  if ← wordNext .defaultWord then
    skip 1
    expect .colon (.missingColon .defaultWord)
    return some (← read (.statements []))
  else return none

/-- A selection after its first word. -/
def switchRest (line : Nat) : Parse Stmt := do
  let subject ← read (.expression 0)
  expect .colon (.missingColon .switchSubject)
  let cases ← read (.cases [])
  let default ← otherwise read
  expectWord .endWord .badSelection
  return .select line subject cases default

/-- A guarded block after its first word. -/
def tryRest (line : Nat) : Parse Stmt := do
  expect .colon (.missingColon .tryWord)
  let body ← read (.statements [])
  expectWord .catchWord .missingCatch
  let name ← identifier .failure
  expect .colon (.missingColon .catchName)
  return .attempt line body name (← closedBlock read .tryStatement)

/-- A print statement after its first word. -/
def printRest (line : Nat) : Parse Stmt := do
  expect .leftParen .missingPrintList
  let arguments ← read (.arguments [])
  expect .semicolon (.missingSemicolon .printStatement)
  return .print line arguments

/-- A return statement after its first word. -/
def returnRest (line : Nat) : Parse Stmt := do
  let value ←
    if ← symbolAt 0 .semicolon then pure none
    else some <$> read (.expression 0)
  expect .semicolon (.missingSemicolon .returnStatement)
  return .giveBack line value

/-- A statement that is a word and a semicolon, after the word. -/
def controlRest (stmt : Stmt) : Parse Stmt := do
  expect .semicolon (.missingSemicolon .loopControl)
  return stmt

/-- An expression as a statement. -/
def expressionStatement : Parse Stmt := do
  let value ← expression read 0
  skipSemicolon
  return .evaluate value

/-- The value of an assignment and the semicolon that may close it. -/
def assignedValue : Parse Expr := do
  let value ← read (.expression 0)
  skipSemicolon
  return value

/-- Whether a name and a parenthesis start a definition: parameters follow, then a colon or an
arrow. -/
def startsDefinition : Parse Bool := ahead do
  skip 2
  let _ ← read (.parameters [])
  return (← symbolAt 0 .colon) || (← symbolAt 0 .arrow)

/-- The index of an indexed assignment up to its equals sign, if this is one. -/
def assignedIndex : Parse (Option Expr) := attempt do
  skip 2
  let index ← read (.expression 0)
  expect .rightSquare .unclosedIndex
  expect .equal .missingEqual
  return index

/-- The names that follow dots, and the tokens after them. -/
def dottedNames : List Token → List String × List Token
  | ⟨.symbol .dot, _, _⟩ :: ⟨.identifier name, _, _⟩ :: rest =>
    let (names, rest) := dottedNames rest
    (name :: names, rest)
  | tokens => ([], tokens)

/-- A property assignment to a base with the properties named after it, from its value on. -/
def propertyAssignment (first : Token) (base : String) (properties : List String) :
    Parse Stmt := do
  match properties with
  | [] => expressionStatement read
  | property :: rest =>
    if h : rest.length ≤ 2 then
      skip (2 * properties.length + 2)
      let value ← assignedValue read
      return .assignProperty first.line ⟨base, property, rest, h⟩ value
    else failAt .deepPath first

/-- A statement that starts with a name and a dot. -/
def dottedStatement (first : Token) (base : String) : Parse Stmt := fun tokens =>
  let (properties, rest) := dottedNames (tokens.drop 1)
  (if (tokenAt rest 0).isSymbol .equal then propertyAssignment read first base properties
   else expressionStatement read) tokens

/-- A statement that starts with a name. -/
def nameStatement (first : Token) (name : String) : Parse Stmt := do
  match (← peek 1).kind with
  | .symbol .leftParen =>
    if ← startsDefinition read then definition read first.line else expressionStatement read
  | .symbol .equal =>
    skip 2
    return .assign first.line name (← assignedValue read)
  | .symbol .leftSquare =>
    match ← assignedIndex read with
    | some index => return .assignIndex first.line name index (← assignedValue read)
    | none => expressionStatement read
  | .symbol .dot => dottedStatement read first name
  | _ => expressionStatement read

/-- A statement. -/
def statement : Parse Stmt := do
  let first ← peek 0
  let line := first.line
  match first.kind with
  | .keyword .useWord => skip 1; useRest line
  | .keyword .funcWord => skip 1; definition read line
  | .keyword .letWord => skip 1; letRest read line
  | .keyword .ifWord => skip 1; ifRest read line
  | .keyword .whileWord => skip 1; whileRest read line
  | .keyword .forWord => skip 1; forRest read line
  | .keyword .switchWord => skip 1; switchRest read line
  | .keyword .tryWord => skip 1; tryRest read line
  | .keyword .printWord => skip 1; printRest read line
  | .keyword .returnWord => skip 1; returnRest read line
  | .keyword .breakWord => skip 1; controlRest (.leave line)
  | .keyword .continueWord => skip 1; controlRest (.next line)
  | .identifier name => nameStatement read first name
  | _ => expressionStatement read

/-- Whether a token ends a block. -/
def endsBlock : TokenKind → Bool
  | .keyword .endWord | .keyword .elseWord | .keyword .catchWord | .keyword .caseWord
  | .keyword .defaultWord | .endMarker => true
  | _ => false

/-- Statements up to a token that ends a block, after those already read. -/
def statements (done : Block) : Parse Block := do
  if endsBlock (← peek 0).kind then return done.reverse
  else
    let stmt ← statement read
    read (.statements (stmt :: done))

end Parse

end DecimalScript
