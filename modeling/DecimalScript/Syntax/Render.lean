import DecimalScript.Syntax.Leaves

/-!
# Tokens of syntax trees

A tree written as tokens. Each token stands on the line that its node remembers.
Parentheses are written around an operation only where its operator does not bind tighter
than its place asks for: on the left of an operator of the same level none are needed, on
the right they are. Every simple statement ends with a semicolon, a function is introduced
by `func`, and an expression that is a statement stands in parentheses.
-/

namespace DecimalScript

namespace Token

/-- A token on a line; what it was read from is not known. -/
def written (line : Nat) (kind : TokenKind) : Token := ⟨kind, "", line⟩

/-- A symbol on a line. -/
abbrev sign (line : Nat) (symbol : Symbol) : Token := written line (.symbol symbol)

/-- A reserved word on a line. -/
abbrev word (line : Nat) (word : Keyword) : Token := written line (.keyword word)

/-- An identifier on a line. -/
abbrev name (line : Nat) (name : String) : Token := written line (.identifier name)

/-- Items after others, with a comma before each. -/
def listRest (line : Nat) (items : List (List Token)) : List Token :=
  items.flatMap fun item => sign line .comma :: item

/-- Items with a comma between each two of them. -/
def list (line : Nat) : List (List Token) → List Token
  | [] => []
  | first :: rest => first ++ listRest line rest

end Token

/-- An annotation after a symbol, or nothing. -/
def TypeName.toTokens (line : Nat) (symbol : Symbol) : Option TypeName → List Token
  | none => []
  | some .int => [.sign line symbol, .word line .intWord]
  | some .string => [.sign line symbol, .word line .stringWord]
  | some (.named name) => [.sign line symbol, .name line name]

/-- A parameter with its annotation. -/
def Parameter.toTokens (line : Nat) (param : Parameter) : List Token :=
  .name line param.name :: TypeName.toTokens line .colon param.typed

/-- The parameters of a lambda with the arrow after them; a single one needs no parentheses. -/
def Expr.lambdaTokens (line : Nat) : List String → List Token
  | [param] => [.name line param, .sign line .fatArrow]
  | params =>
    .sign line .leftParen :: (Token.list line (params.map fun param => [.name line param]) ++
      [.sign line .rightParen, .sign line .fatArrow])

mutual

/-- The tokens of an expression at a place that asks for operators tighter than a level. -/
def Expr.toTokens : Nat → Expr → List Token
  | _, .literal line value => [.written line value.kind]
  | _, .var line name => [.name line name]
  | _, .negate line operand => .sign line .minus :: operand.toTokens 5
  | level, .binary line op left right =>
    let tokens :=
      left.toTokens (op.level - 1) ++ .written line op.kind :: right.toTokens op.level
    if op.level ≤ level then
      .sign line .leftParen :: (tokens ++ [.sign line .rightParen])
    else tokens
  | _, .call line callee arguments =>
    callee.toTokens 5 ++
      .sign line .leftParen :: (Expr.listTokens line arguments ++ [.sign line .rightParen])
  | _, .member line target name =>
    target.toTokens 5 ++ [.sign line .dot, .name line name]
  | _, .index line target position =>
    target.toTokens 5 ++
      .sign line .leftSquare :: (position.toTokens 0 ++ [.sign line .rightSquare])
  | _, .array line elements =>
    .sign line .leftSquare :: (Expr.listTokens line elements ++ [.sign line .rightSquare])
  | _, .object line fields =>
    .sign line .leftBrace :: (Expr.fieldTokens line fields ++ [.sign line .rightBrace])
  | _, .lambda line params body => Expr.lambdaTokens line params ++ body.toTokens 0

/-- The tokens of expressions with commas between them. -/
def Expr.listTokens (line : Nat) : List Expr → List Token
  | [] => []
  | expr :: rest => expr.toTokens 0 ++ Expr.listRestTokens line rest

/-- The tokens of expressions with commas before them. -/
def Expr.listRestTokens (line : Nat) : List Expr → List Token
  | [] => []
  | expr :: rest => .sign line .comma :: (expr.toTokens 0 ++ Expr.listRestTokens line rest)

/-- The tokens of fields with commas between them; the name of a field is written as a text. -/
def Expr.fieldTokens (line : Nat) : List (String × Expr) → List Token
  | [] => []
  | (name, expr) :: rest =>
    .written line (.text name) :: .sign line .colon ::
      (expr.toTokens 0 ++ Expr.fieldRestTokens line rest)

/-- The tokens of fields with commas before them. -/
def Expr.fieldRestTokens (line : Nat) : List (String × Expr) → List Token
  | [] => []
  | (name, expr) :: rest =>
    .sign line .comma :: .written line (.text name) :: .sign line .colon ::
      (expr.toTokens 0 ++ Expr.fieldRestTokens line rest)

end

/-- The tokens of what a loop runs over, with the colons after its expressions. -/
def Iteration.toTokens (line : Nat) : Iteration → List Token
  | .range start stop =>
    start.toTokens 0 ++ .sign line .colon :: (stop.toTokens 0 ++ [.sign line .colon])
  | .step start stop width | .countdown start stop width =>
    start.toTokens 0 ++ .sign line .colon :: (stop.toTokens 0 ++
      .sign line .colon :: (width.toTokens 0 ++ [.sign line .colon]))
  | .items value => value.toTokens 0 ++ [.sign line .colon]

/-- The tokens of the properties of a path. -/
def PropertyPath.toTokens (line : Nat) (path : PropertyPath) : List Token :=
  path.properties.flatMap fun property => [.sign line .dot, .name line property]

mutual

/-- The tokens of a statement. -/
def Stmt.toTokens : Stmt → List Token
  | .use line target aliasName =>
    [.word line .useWord, .written line target.kind, .word line .asWord, .name line aliasName,
      .sign line .semicolon]
  | .declare line name typed value =>
    .word line .letWord :: .name line name :: (TypeName.toTokens line .colon typed ++
      .sign line .equal :: (value.toTokens 0 ++ [.sign line .semicolon]))
  | .assign line name value =>
    .name line name :: .sign line .equal :: (value.toTokens 0 ++ [.sign line .semicolon])
  | .assignIndex line name index value =>
    .name line name :: .sign line .leftSquare :: (index.toTokens 0 ++
      .sign line .rightSquare :: .sign line .equal ::
        (value.toTokens 0 ++ [.sign line .semicolon]))
  | .assignProperty line path value =>
    .name line path.base :: (path.toTokens line ++
      .sign line .equal :: (value.toTokens 0 ++ [.sign line .semicolon]))
  | .define line name params returnType body =>
    .word line .funcWord :: .name line name :: .sign line .leftParen ::
      (Token.list line (params.map (Parameter.toTokens line)) ++ .sign line .rightParen ::
        (TypeName.toTokens line .arrow returnType ++ .sign line .colon ::
          (Stmt.blockTokens body ++ [.word line .endWord])))
  | .branch line condition whenTrue whenFalse =>
    .word line .ifWord :: (condition.toTokens 0 ++ .sign line .colon ::
      (Stmt.blockTokens whenTrue ++
        (Stmt.optionTokens line .elseWord whenFalse ++ [.word line .endWord])))
  | .repeatWhile line condition body =>
    .word line .whileWord :: (condition.toTokens 0 ++ .sign line .colon ::
      (Stmt.blockTokens body ++ [.word line .endWord]))
  | .repeatOver line name iteration body =>
    .word line .forWord :: .name line name :: .word line .inWord :: (iteration.toTokens line ++
      (Stmt.blockTokens body ++ [.word line .endWord]))
  | .select line subject cases otherwise =>
    .word line .switchWord :: (subject.toTokens 0 ++ .sign line .colon ::
      (Stmt.caseTokens line cases ++
        (Stmt.optionTokens line .defaultWord otherwise ++ [.word line .endWord])))
  | .attempt line body failure handler =>
    .word line .tryWord :: .sign line .colon :: (Stmt.blockTokens body ++
      .word line .catchWord :: .name line failure :: .sign line .colon ::
        (Stmt.blockTokens handler ++ [.word line .endWord]))
  | .print line arguments =>
    .word line .printWord :: .sign line .leftParen :: (Expr.listTokens line arguments ++
      [.sign line .rightParen, .sign line .semicolon])
  | .giveBack line none => [.word line .returnWord, .sign line .semicolon]
  | .giveBack line (some value) =>
    .word line .returnWord :: (value.toTokens 0 ++ [.sign line .semicolon])
  | .leave line => [.word line .breakWord, .sign line .semicolon]
  | .next line => [.word line .continueWord, .sign line .semicolon]
  | .evaluate value =>
    .sign value.line .leftParen ::
      (value.toTokens 0 ++ [.sign value.line .rightParen, .sign value.line .semicolon])

/-- The tokens of a block. -/
def Stmt.blockTokens : List Stmt → List Token
  | [] => []
  | stmt :: rest => stmt.toTokens ++ Stmt.blockTokens rest

/-- The tokens of a block after its word and a colon, or nothing. -/
def Stmt.optionTokens (line : Nat) (word : Keyword) : Option (List Stmt) → List Token
  | none => []
  | some body => .word line word :: .sign line .colon :: Stmt.blockTokens body

/-- The tokens of the cases of a selection. -/
def Stmt.caseTokens (line : Nat) : List (Expr × List Stmt) → List Token
  | [] => []
  | (value, body) :: rest =>
    .word line .caseWord :: (value.toTokens 0 ++ .sign line .colon ::
      (Stmt.blockTokens body ++ Stmt.caseTokens line rest))

end

/-- The tokens of a program, with an end marker after them. -/
def Block.toTokens (line : Nat) (program : Block) : List Token :=
  Stmt.blockTokens program ++ [.endOn line]

end DecimalScript
