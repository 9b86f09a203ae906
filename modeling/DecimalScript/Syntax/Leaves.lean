import DecimalScript.Syntax.Expression

/-!
# Leaves of syntax trees

What a tree keeps of the tokens it is read from: names, constants, module paths and
operators, in the order in which they are written. An operator stands between the leaves
of its operands, and the minus sign of a negation before its operand. The other tokens
only shape the tree.
-/

namespace DecimalScript

/-- The token that an operator is written as. -/
def BinaryOp.kind : BinaryOp → TokenKind
  | add => .symbol .plus
  | subtract => .symbol .minus
  | multiply => .symbol .star
  | divide => .symbol .slash
  | modulo => .symbol .percent
  | equal => .symbol .equalEqual
  | notEqual => .symbol .bangEqual
  | less => .symbol .less
  | lessEqual => .symbol .lessEqual
  | greater => .symbol .greater
  | greaterEqual => .symbol .greaterEqual
  | both => .keyword .andWord
  | either => .keyword .orWord

/-- The token that a constant is written as. -/
def Literal.kind : Literal → TokenKind
  | number value => .number value
  | text value => .text value
  | boolean true => .keyword .trueWord
  | boolean false => .keyword .falseWord

/-- What a tree keeps of a token. -/
inductive Leaf where
  /-- The token as it is. -/
  | token (kind : TokenKind)
  /-- The name of a field, which may be written as an identifier or as a text. -/
  | field (name : String)
  deriving DecidableEq

/-- Whether a token may be what a leaf is written as. -/
def Leaf.Matches : Leaf → TokenKind → Prop
  | token kind, found => found = kind
  | field name, found => found = .identifier name ∨ found = .text name

/-- Whether a tree keeps a token: names, texts, numbers, module paths, truth values and operators;
a minus sign is an operator too where it negates. -/
def TokenKind.isLeaf : TokenKind → Bool
  | .identifier _ | .text _ | .number _ | .path _ | .keyword .trueWord | .keyword .falseWord => true
  | kind => (Parse.binaryOp? kind).isSome

/-- What the target of an import is written as. -/
def ModuleRef.kind : ModuleRef → TokenKind
  | path text => .path text
  | quoted text => .text text
  | bare text => .identifier text

/-- The leaf of a name. -/
abbrev Leaf.name (name : String) : Leaf := .token (.identifier name)

mutual

/-- The leaves of an expression. -/
def Expr.leaves : Expr → List Leaf
  | .literal _ value => [.token value.kind]
  | .var _ name => [.name name]
  | .negate _ operand => .token (.symbol .minus) :: operand.leaves
  | .binary _ op left right => left.leaves ++ .token op.kind :: right.leaves
  | .call _ callee arguments => callee.leaves ++ Expr.leavesAll arguments
  | .member _ target name => target.leaves ++ [.name name]
  | .index _ target position => target.leaves ++ position.leaves
  | .array _ elements => Expr.leavesAll elements
  | .object _ fields => Expr.leavesFields fields
  | .lambda _ params body => params.map .name ++ body.leaves

/-- The leaves of a list of expressions. -/
def Expr.leavesAll : List Expr → List Leaf
  | [] => []
  | expr :: rest => expr.leaves ++ Expr.leavesAll rest

/-- The leaves of the fields of an object. -/
def Expr.leavesFields : List (String × Expr) → List Leaf
  | [] => []
  | (name, expr) :: rest => .field name :: (expr.leaves ++ Expr.leavesFields rest)

end

/-- The leaves of an annotation. -/
def TypeName.leaves : Option TypeName → List Leaf
  | some (.named name) => [.name name]
  | _ => []

/-- The leaves of a parameter. -/
def Parameter.leaves (param : Parameter) : List Leaf :=
  .name param.name :: TypeName.leaves param.typed

/-- The leaves of what a loop runs over. -/
def Iteration.leaves : Iteration → List Leaf
  | .range start stop => start.leaves ++ stop.leaves
  | .step start stop width | .countdown start stop width =>
    start.leaves ++ (stop.leaves ++ width.leaves)
  | .items value => value.leaves

mutual

/-- The leaves of a statement. -/
def Stmt.leaves : Stmt → List Leaf
  | .use _ target aliasName => [.token target.kind, .name aliasName]
  | .declare _ name typed value => .name name :: (TypeName.leaves typed ++ value.leaves)
  | .assign _ name value => .name name :: value.leaves
  | .assignIndex _ name index value => .name name :: (index.leaves ++ value.leaves)
  | .assignProperty _ path value =>
    .name path.base :: (path.properties.map .name ++ value.leaves)
  | .define _ name params returnType body =>
    .name name :: (params.flatMap Parameter.leaves ++
      (TypeName.leaves returnType ++ Stmt.leavesAll body))
  | .branch _ condition whenTrue whenFalse =>
    condition.leaves ++ (Stmt.leavesAll whenTrue ++ Stmt.leavesOption whenFalse)
  | .repeatWhile _ condition body => condition.leaves ++ Stmt.leavesAll body
  | .repeatOver _ name iteration body => .name name :: (iteration.leaves ++ Stmt.leavesAll body)
  | .select _ subject cases otherwise =>
    subject.leaves ++ (Stmt.leavesCases cases ++ Stmt.leavesOption otherwise)
  | .attempt _ body failure handler =>
    Stmt.leavesAll body ++ .name failure :: Stmt.leavesAll handler
  | .print _ arguments => Expr.leavesAll arguments
  | .giveBack _ none | .leave _ | .next _ => []
  | .giveBack _ (some value) | .evaluate value => value.leaves

/-- The leaves of a block. -/
def Stmt.leavesAll : List Stmt → List Leaf
  | [] => []
  | stmt :: rest => stmt.leaves ++ Stmt.leavesAll rest

/-- The leaves of a block that may be absent. -/
def Stmt.leavesOption : Option (List Stmt) → List Leaf
  | none => []
  | some body => Stmt.leavesAll body

/-- The leaves of the cases of a selection. -/
def Stmt.leavesCases : List (Expr × List Stmt) → List Leaf
  | [] => []
  | (value, body) :: rest => value.leaves ++ (Stmt.leavesAll body ++ Stmt.leavesCases rest)

end

/-- The tokens that a tree keeps, in order. -/
def Token.kept (tokens : List Token) : List TokenKind :=
  (tokens.map (·.kind)).filter TokenKind.isLeaf

/-- The tokens before the first end marker. -/
def Token.beforeEnd (tokens : List Token) : List Token :=
  tokens.takeWhile fun token => token.kind != .endMarker

end DecimalScript
