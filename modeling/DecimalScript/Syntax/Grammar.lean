import DecimalScript.Syntax.Leaves

/-!
# Grammar of the language

The concrete syntax as a relation between trees and tokens. A piece is a token or a part
of a tree; a production replaces a part by the pieces it is written as, and a list of
pieces is spelled by tokens if productions lead from one to the other. Productions say
which trees are written in which way; they leave open which of two readings is preferred.
-/

namespace DecimalScript

/-- A token or a part of a tree. -/
inductive Piece where
  /-- A token that only shapes the tree. -/
  | mark (kind : TokenKind)
  /-- A token that the tree keeps. -/
  | leaf (leaf : Leaf)
  /-- A semicolon that may be left out. -/
  | semicolon
  /-- An expression whose operators bind tighter than a level. -/
  | expression (level : Nat) (expr : Expr)
  /-- A primary with members, indices and calls. -/
  | operand (expr : Expr)
  /-- An operand without suffixes. -/
  | primary (expr : Expr)
  /-- What a declaration binds. -/
  | initializer (expr : Expr)
  /-- A conditional between its first and its closing word. -/
  | chain (stmt : Stmt)
  /-- A statement. -/
  | stmt (stmt : Stmt)

namespace Piece

/-- A symbol that shapes the tree. -/
abbrev symbol (symbol : Symbol) : Piece := .mark (.symbol symbol)

/-- A reserved word that shapes the tree. -/
abbrev word (word : Keyword) : Piece := .mark (.keyword word)

/-- An identifier. -/
abbrev name (name : String) : Piece := .leaf (.token (.identifier name))

/-- Items with a comma between each two of them. -/
def commas : List (List Piece) → List Piece
  | [] => []
  | [item] => item
  | item :: next :: rest => item ++ symbol .comma :: commas (next :: rest)

/-- Expressions with commas between them. -/
def expressions (exprs : List Expr) : List Piece := commas (exprs.map fun e => [expression 0 e])

/-- The statements of a block. -/
def block (block : Block) : List Piece := block.map stmt

end Piece

/-- What an annotation is written as. -/
def TypeName.pieces : TypeName → List Piece
  | int => [.word .intWord]
  | string => [.word .stringWord]
  | named name => [.name name]

/-- An annotation after a symbol, or nothing. -/
def TypeName.annotation (symbol : Symbol) : Option TypeName → List Piece
  | none => []
  | some typed => .symbol symbol :: typed.pieces

/-- What a parameter is written as. -/
def Parameter.pieces (param : Parameter) : List Piece :=
  .name param.name :: TypeName.annotation .colon param.typed

/-- What a field of an object is written as. -/
def Expr.fieldPieces (field : String × Expr) : List Piece :=
  [.leaf (.field field.1), .symbol .colon, .expression 0 field.2]

/-- What a function is written as from its name on. -/
def Stmt.signature (name : String) (params : List Parameter) (returnType : Option TypeName)
    (body : Block) : List Piece :=
  .name name :: .symbol .leftParen :: (Piece.commas (params.map Parameter.pieces) ++
    .symbol .rightParen :: (TypeName.annotation .arrow returnType ++
      .symbol .colon :: (Piece.block body ++ [.word .endWord])))

/-- What a loop over numbers or items is written as between `in` and its body. -/
def Iteration.pieces : Iteration → List Piece
  | range start stop => [.expression 0 start, .symbol .colon, .expression 0 stop, .symbol .colon]
  | step start stop width | countdown start stop width =>
    [.expression 0 start, .symbol .colon, .expression 0 stop, .symbol .colon,
      .expression 0 width, .symbol .colon]
  | items value => [.expression 0 value, .symbol .colon]

/-- What a case of a selection is written as. -/
def Stmt.casePieces (item : Expr × Block) : List Piece :=
  .word .caseWord :: .expression 0 item.1 :: .symbol .colon :: Piece.block item.2

/-- What the block is written as that is run if no case applies. -/
def Stmt.otherwisePieces : Option Block → List Piece
  | none => []
  | some body => .word .defaultWord :: .symbol .colon :: Piece.block body

/-- What the properties of a path are written as. -/
def PropertyPath.pieces (path : PropertyPath) : List Piece :=
  path.properties.flatMap fun property => [.symbol .dot, .name property]

/-- The first token of an expression where parentheses are only written around an operator that
does not bind tighter than a level. -/
def Expr.leadKind : Nat → Expr → TokenKind
  | _, .literal _ value => value.kind
  | _, .var _ name => .identifier name
  | _, .negate _ _ => .symbol .minus
  | level, .binary _ op left _ =>
    if op.level ≤ level then .symbol .leftParen else left.leadKind (op.level - 1)
  | _, .call _ callee _ => callee.leadKind 5
  | _, .member _ target _ => target.leadKind 5
  | _, .index _ target _ => target.leadKind 5
  | _, .array _ _ => .symbol .leftSquare
  | _, .object _ _ => .symbol .leftBrace
  | _, .lambda _ _ _ => .symbol .leftParen

/-- Whether an expression is a written negation. -/
def Expr.isNegation : Expr → Bool
  | .negate _ _ => true
  | _ => false

/-- Whether a token may start a step. -/
def TokenKind.startsStep (kind : TokenKind) : Bool := kind.isNumber || kind == .symbol .minus

/-- A step starts like one, and the loop counts down by it if it is a written negation. -/
def Iteration.WellStepped : Iteration → Prop
  | range _ _ | items _ => True
  | step _ _ width => width.isNegation = false ∧ (width.leadKind 0).startsStep = true
  | countdown _ _ width => width.isNegation = true

open Piece in
/-- The pieces that a part of a tree is written as. -/
inductive Production : Piece → List Piece → Prop where
  | present : Production .semicolon [symbol .semicolon]
  | absent : Production .semicolon []
  | operand (level : Nat) (expr : Expr) : Production (expression level expr) [operand expr]
  /-- Operators of one level associate to the left. -/
  | binary {level : Nat} {op : BinaryOp} (left right : Expr) (h : level < op.level) :
    Production (expression level (.binary left.line op left right))
      [expression (op.level - 1) left, leaf (.token op.kind), expression op.level right]
  | primary (expr : Expr) : Production (operand expr) [primary expr]
  | member (target : Expr) (field : String) :
    Production (operand (.member target.line target field))
      [operand target, symbol .dot, name field]
  | index (target position : Expr) :
    Production (operand (.index target.line target position))
      [operand target, symbol .leftSquare, expression 0 position, symbol .rightSquare]
  | call (callee : Expr) (arguments : List Expr) :
    Production (operand (.call callee.line callee arguments))
      (operand callee :: symbol .leftParen :: (expressions arguments ++ [symbol .rightParen]))
  | literal (line : Nat) (value : Literal) :
    Production (primary (.literal line value)) [leaf (.token value.kind)]
  | var (line : Nat) (id : String) : Production (primary (.var line id)) [name id]
  | negate (line : Nat) (value : Number) :
    Production (primary (.negate line (.literal line (.number value))))
      [leaf (.token (.symbol .minus)), leaf (.token (.number value))]
  | paren (expr : Expr) :
    Production (primary expr) [symbol .leftParen, expression 0 expr, symbol .rightParen]
  | array (line : Nat) (elements : List Expr) :
    Production (primary (.array line elements))
      (symbol .leftSquare :: (expressions elements ++ [symbol .rightSquare]))
  | object (line : Nat) (fields : List (String × Expr)) :
    Production (primary (.object line fields))
      (symbol .leftBrace :: (commas (fields.map Expr.fieldPieces) ++ [symbol .rightBrace]))
  | expression (expr : Expr) : Production (initializer expr) [expression 0 expr]
  | lambdaName (line : Nat) (param : String) (body : Expr) :
    Production (initializer (.lambda line [param] body))
      [name param, symbol .fatArrow, expression 0 body]
  | lambda (line : Nat) (params : List String) (body : Expr) :
    Production (initializer (.lambda line params body))
      (symbol .leftParen :: (commas (params.map fun param => [name param]) ++
        [symbol .rightParen, symbol .fatArrow, expression 0 body]))
  | chainEnd (line : Nat) (condition : Expr) (whenTrue : Block) :
    Production (chain (.branch line condition whenTrue none))
      (expression 0 condition :: symbol .colon :: block whenTrue)
  | chainElse (line : Nat) (condition : Expr) (whenTrue whenFalse : Block) :
    Production (chain (.branch line condition whenTrue (some whenFalse)))
      (expression 0 condition :: symbol .colon :: (block whenTrue ++
        word .elseWord :: symbol .colon :: block whenFalse))
  | chainElseIf (line : Nat) (condition : Expr) (whenTrue : Block) (nested : Stmt) :
    Production (chain (.branch line condition whenTrue (some [nested])))
      (expression 0 condition :: symbol .colon :: (block whenTrue ++
        [word .elseWord, word .ifWord, chain nested]))
  | use (line : Nat) (target : ModuleRef) (aliasName : String) :
    Production (stmt (.use line target aliasName))
      [word .useWord, leaf (.token target.kind), word .asWord, name aliasName, .semicolon]
  | declare (line : Nat) (id : String) (typed : Option TypeName) (value : Expr) :
    Production (stmt (.declare line id typed value))
      (word .letWord :: name id :: (TypeName.annotation .colon typed ++
        [symbol .equal, initializer value, symbol .semicolon]))
  | assign (line : Nat) (id : String) (value : Expr) :
    Production (stmt (.assign line id value))
      [name id, symbol .equal, expression 0 value, .semicolon]
  | assignIndex (line : Nat) (id : String) (position value : Expr) :
    Production (stmt (.assignIndex line id position value))
      [name id, symbol .leftSquare, expression 0 position, symbol .rightSquare, symbol .equal,
        expression 0 value, .semicolon]
  | assignProperty (line : Nat) (path : PropertyPath) (value : Expr) :
    Production (stmt (.assignProperty line path value))
      (name path.base :: (path.pieces ++ [symbol .equal, expression 0 value, .semicolon]))
  | define {introduction : List Piece} (line : Nat) (id : String) (params : List Parameter)
      (returnType : Option TypeName) (body : Block)
      (h : introduction ∈ [[], [word .funcWord], [word .letWord]]) :
    Production (stmt (.define line id params returnType body))
      (introduction ++ Stmt.signature id params returnType body)
  | branch (whole : Stmt) :
    Production (stmt whole) [word .ifWord, chain whole, word .endWord]
  | repeatWhile (line : Nat) (condition : Expr) (body : Block) :
    Production (stmt (.repeatWhile line condition body))
      (word .whileWord :: expression 0 condition :: symbol .colon ::
        (block body ++ [word .endWord]))
  | repeatOver {iteration : Iteration} (line : Nat) (id : String) (body : Block)
      (h : iteration.WellStepped) :
    Production (stmt (.repeatOver line id iteration body))
      (word .forWord :: name id :: word .inWord :: (iteration.pieces ++
        (block body ++ [word .endWord])))
  | select (line : Nat) (subject : Expr) (cases : List (Expr × Block))
      (otherwise : Option Block) :
    Production (stmt (.select line subject cases otherwise))
      (word .switchWord :: expression 0 subject :: symbol .colon ::
        (cases.flatMap Stmt.casePieces ++ (Stmt.otherwisePieces otherwise ++ [word .endWord])))
  | attempt (line : Nat) (body : Block) (failure : String) (handler : Block) :
    Production (stmt (.attempt line body failure handler))
      (word .tryWord :: symbol .colon :: (block body ++
        word .catchWord :: name failure :: symbol .colon :: (block handler ++ [word .endWord])))
  | print (line : Nat) (arguments : List Expr) :
    Production (stmt (.print line arguments))
      (word .printWord :: symbol .leftParen ::
        (expressions arguments ++ [symbol .rightParen, symbol .semicolon]))
  | giveBack (line : Nat) (value : Option Expr) :
    Production (stmt (.giveBack line value))
      (word .returnWord :: ((value.map (expression 0)).toList ++ [symbol .semicolon]))
  | leave (line : Nat) :
    Production (stmt (.leave line)) [word .breakWord, symbol .semicolon]
  | next (line : Nat) :
    Production (stmt (.next line)) [word .continueWord, symbol .semicolon]
  | evaluate (value : Expr) :
    Production (stmt (.evaluate value)) [expression 0 value, .semicolon]

/-- Tokens spell pieces, and other tokens are left after them. -/
inductive Spells : List Piece → List Token → List Token → Prop where
  | nil {tokens : List Token} : Spells [] tokens tokens
  | mark {pieces : List Piece} {kind : TokenKind} {token : Token} {tokens rest : List Token}
      (hkind : token.kind = kind) (hleaf : kind.isLeaf = false) (hend : kind ≠ .endMarker)
      (h : Spells pieces tokens rest) : Spells (.mark kind :: pieces) (token :: tokens) rest
  | leaf {pieces : List Piece} {leaf : Leaf} {token : Token} {tokens rest : List Token}
      (hmatch : leaf.Matches token.kind) (hleaf : token.kind.isLeaf = true)
      (h : Spells pieces tokens rest) : Spells (.leaf leaf :: pieces) (token :: tokens) rest
  | expand {piece : Piece} {parts pieces : List Piece} {tokens rest : List Token}
      (hproduction : Production piece parts) (h : Spells (parts ++ pieces) tokens rest) :
    Spells (piece :: pieces) tokens rest

end DecimalScript
