import DecimalScript.Number.Basic

/-!
# Syntax trees

A program is a block of statements. Every expression keeps the line of its first
token, and every statement that of its own; they are data of the tree because messages
refer to them. An expression that stands as a statement has the line of the expression.
-/

namespace DecimalScript

/-- Operators with two operands. -/
inductive BinaryOp where
  | add | subtract | multiply | divide | modulo
  | equal | notEqual | less | lessEqual | greater | greaterEqual
  | both | either
  deriving DecidableEq, Repr

namespace BinaryOp

/-- How tightly an operator binds; all operators of one level associate to the left. -/
def level : BinaryOp → Nat
  | both | either => 1
  | equal | notEqual => 2
  | less | lessEqual | greater | greaterEqual => 3
  | add | subtract => 4
  | multiply | divide | modulo => 5

/-- The spelling of an operator. -/
def symbol : BinaryOp → String
  | add => "+"
  | subtract => "-"
  | multiply => "*"
  | divide => "/"
  | modulo => "%"
  | equal => "=="
  | notEqual => "!="
  | less => "<"
  | lessEqual => "<="
  | greater => ">"
  | greaterEqual => ">="
  | both => "and"
  | either => "or"

end BinaryOp

/-- A type annotation. It is kept in the tree and never enforced. -/
inductive TypeName where
  | int
  | string
  /-- A name without a meaning of its own. -/
  | named (name : String)
  deriving DecidableEq, Repr

/-- A parameter of a function. -/
structure Parameter where
  /-- The name it binds. -/
  name : String
  /-- Its annotation. -/
  typed : Option TypeName
  deriving DecidableEq, Repr

/-- The target of a module import, by the form it is written in. -/
inductive ModuleRef where
  /-- A bare path that starts with a dot. -/
  | path (text : String)
  /-- A string literal. -/
  | quoted (text : String)
  /-- An identifier. -/
  | bare (text : String)
  deriving DecidableEq, Repr

/-- The text of an import target. -/
def ModuleRef.text : ModuleRef → String
  | path text | quoted text | bare text => text

/-- A constant written in the source. -/
inductive Literal where
  | number (value : Number)
  | text (value : String)
  | boolean (value : Bool)
  deriving DecidableEq

/-- Expressions. -/
inductive Expr where
  /-- A constant. -/
  | literal (line : Nat) (value : Literal)
  /-- A variable by its name. -/
  | var (line : Nat) (name : String)
  /-- A negation. -/
  | negate (line : Nat) (operand : Expr)
  /-- An operator between two operands. -/
  | binary (line : Nat) (op : BinaryOp) (left right : Expr)
  /-- A call. -/
  | call (line : Nat) (callee : Expr) (arguments : List Expr)
  /-- A property by its name. -/
  | member (line : Nat) (target : Expr) (name : String)
  /-- An element or property by a computed index. -/
  | index (line : Nat) (target index : Expr)
  /-- An array by its elements. -/
  | array (line : Nat) (elements : List Expr)
  /-- An object by its fields in order; a name may occur more than once. -/
  | object (line : Nat) (fields : List (String × Expr))
  /-- A function of one expression. -/
  | lambda (line : Nat) (params : List String) (body : Expr)

/-- The line of the first token of an expression. -/
def Expr.line : Expr → Nat
  | .literal line _ | .var line _ | .negate line _ | .binary line _ _ _ | .call line _ _
  | .member line _ _ | .index line _ _ | .array line _ | .object line _ | .lambda line _ _ => line

/-- What a `for` loop runs over. -/
inductive Iteration where
  /-- The numbers from a start to an end, one by one. -/
  | range (start stop : Expr)
  /-- The numbers from a start to an end by a step that is not a written negation. -/
  | step (start stop step : Expr)
  /-- The numbers from a start to an end by a step that is a written negation. -/
  | countdown (start stop step : Expr)
  /-- The items of a value. -/
  | items (value : Expr)

/-- The target of a property assignment: a base name and one to three property names. -/
structure PropertyPath where
  /-- The variable or module alias at the base. -/
  base : String
  /-- The first property. -/
  first : String
  /-- The properties below the first. -/
  rest : List String
  /-- There are at most two of them. -/
  rest_length_le : rest.length ≤ 2
  deriving DecidableEq

namespace PropertyPath

/-- The greatest number of names in a path, the base included. -/
def maxDepth : Nat := 4

/-- The property names, outermost first. -/
def properties (path : PropertyPath) : List String := path.first :: path.rest

/-- The number of names in a path, the base included. -/
def depth (path : PropertyPath) : Nat := path.properties.length + 1

/-- A path has at most four names. -/
theorem depth_le (path : PropertyPath) : path.depth ≤ maxDepth := by
  have := path.rest_length_le
  simp only [depth, properties, maxDepth, List.length_cons]
  omega

end PropertyPath

/-- Statements. -/
inductive Stmt where
  /-- Binds an alias to a library or a module. -/
  | use (line : Nat) (target : ModuleRef) (aliasName : String)
  /-- Declares a variable in the current scope. -/
  | declare (line : Nat) (name : String) (typed : Option TypeName) (value : Expr)
  /-- Assigns a variable. -/
  | assign (line : Nat) (name : String) (value : Expr)
  /-- Assigns an element or property of a variable by a computed index. -/
  | assignIndex (line : Nat) (name : String) (index value : Expr)
  /-- Assigns a property by its path. -/
  | assignProperty (line : Nat) (path : PropertyPath) (value : Expr)
  /-- Registers a function. -/
  | define (line : Nat) (name : String) (params : List Parameter) (returnType : Option TypeName)
      (body : List Stmt)
  /-- Runs one of two blocks. -/
  | branch (line : Nat) (condition : Expr) (whenTrue : List Stmt)
      (whenFalse : Option (List Stmt))
  /-- Repeats a block while a condition holds. -/
  | repeatWhile (line : Nat) (condition : Expr) (body : List Stmt)
  /-- Repeats a block over numbers or items. -/
  | repeatOver (line : Nat) (loopName : String) (iteration : Iteration) (body : List Stmt)
  /-- Runs the block of the first case equal to a subject. -/
  | select (line : Nat) (subject : Expr) (cases : List (Expr × List Stmt))
      (otherwise : Option (List Stmt))
  /-- Runs a block and, if it fails, a handler that sees the failure in a variable. -/
  | attempt (line : Nat) (body : List Stmt) (failure : String) (handler : List Stmt)
  /-- Writes values on one line. -/
  | print (line : Nat) (arguments : List Expr)
  /-- Leaves a function with a value. -/
  | giveBack (line : Nat) (value : Option Expr)
  /-- Leaves a loop or a selection. -/
  | leave (line : Nat)
  /-- Goes on with the next turn of a loop. -/
  | next (line : Nat)
  /-- Evaluates an expression for its effects. -/
  | evaluate (value : Expr)

/-- A block of statements; a program is one too. -/
abbrev Block := List Stmt

/-- The line of a statement. -/
def Stmt.line : Stmt → Nat
  | .use line _ _ | .declare line _ _ _ | .assign line _ _ | .assignIndex line _ _ _
  | .assignProperty line _ _ | .define line _ _ _ _ | .branch line _ _ _ | .repeatWhile line _ _
  | .repeatOver line _ _ _ | .select line _ _ _ | .attempt line _ _ _ | .print line _
  | .giveBack line _ | .leave line | .next line => line
  | .evaluate value => value.line

/-- A function definition. -/
structure Function where
  /-- The name it was defined by. -/
  name : String
  /-- Its parameters in order. -/
  params : List Parameter
  /-- Its result annotation. -/
  returnType : Option TypeName
  /-- Its body. -/
  body : Block

/-- The statement that registers a function. -/
def Function.toStmt (line : Nat) (f : Function) : Stmt :=
  .define line f.name f.params f.returnType f.body

end DecimalScript
