import DecimalScript.Listing.Basic
import DecimalScript.Number.Text
import DecimalScript.Syntax.Basic
import DecimalScript.Text.Quoted

/-!
# Listings of programs

A program is listed as the list of its statements, each with its kind, its parts in a
fixed order and its line. Names and texts are quoted; numbers are written as in output.
-/

namespace DecimalScript

namespace Listing

/-- A quoted text. -/
def quoted (text : String) : Listing := atom (Text.quoted text)

/-- A count. -/
def count (n : Nat) : Listing := atom (toString n)

/-- Quoted texts in order. -/
def quotedAll (texts : List String) : Listing := list (texts.map quoted)

end Listing

open Listing

/-- The listed name of an operator. -/
def BinaryOp.title : BinaryOp → String
  | add => "Add"
  | subtract => "Subtract"
  | multiply => "Multiply"
  | divide => "Divide"
  | modulo => "Modulo"
  | equal => "Equal"
  | notEqual => "NotEqual"
  | less => "Less"
  | lessEqual => "LessEqual"
  | greater => "Greater"
  | greaterEqual => "GreaterEqual"
  | both => "And"
  | either => "Or"

/-- The listing of a constant. -/
def Literal.listing : Literal → Listing
  | number value => tuple "Number" [atom value.text]
  | text value => tuple "String" [Listing.quoted value]
  | boolean value => tuple "Boolean" [atom (if value then "true" else "false")]

/-- An expression with its kind and line. -/
def Expr.listed (line : Nat) (kind : Listing) : Listing :=
  record "Expr" [("expr_type", kind), ("line", count line)]

mutual

/-- The listing of an expression. -/
def Expr.listing : Expr → Listing
  | .literal line value => Expr.listed line (tuple "Literal" [value.listing])
  | .var line name => Expr.listed line (tuple "Variable" [quoted name])
  | .negate line operand => Expr.listed line
      (record "Unary" [("operator", atom "Negate"), ("operand", operand.listing)])
  | .binary line op left right => Expr.listed line
      (record "Binary"
        [("left", left.listing), ("operator", atom op.title), ("right", right.listing)])
  | .call line callee arguments => Expr.listed line
      (record "Call"
        [("callee", callee.listing), ("arguments", list (Expr.listings arguments))])
  | .member line target name => Expr.listed line
      (record "Member" [("object", target.listing), ("name", quoted name)])
  | .index line target position => Expr.listed line
      (record "Index" [("object", target.listing), ("index", position.listing)])
  | .array line elements => Expr.listed line (tuple "Array" [list (Expr.listings elements)])
  | .object line fields => Expr.listed line
      (tuple "Object" [list (Expr.fieldListings fields)])
  | .lambda line params body => Expr.listed line
      (tuple "Lambda" [record "Lambda" [("params", quotedAll params), ("body", body.listing)]])

/-- The listings of expressions. -/
def Expr.listings : List Expr → List Listing
  | [] => []
  | expr :: rest => expr.listing :: Expr.listings rest

/-- The listings of object fields, each a pair of name and value. -/
def Expr.fieldListings : List (String × Expr) → List Listing
  | [] => []
  | (name, expr) :: rest => tuple "" [quoted name, expr.listing] :: Expr.fieldListings rest

end

/-- The listing of an annotation. -/
def TypeName.listing : TypeName → Listing
  | int => atom "Int"
  | string => atom "String"
  | named name => tuple "Named" [quoted name]

/-- The listing of an annotation that may be absent. -/
def typeListing (typed : Option TypeName) : Listing := option (typed.map (·.listing))

/-- The listing of a parameter. -/
def Parameter.listing (param : Parameter) : Listing :=
  record "Param" [("name", quoted param.name), ("annotation", typeListing param.typed)]

/-- The listing of an import target. -/
def ModuleRef.listing : ModuleRef → Listing
  | path text => tuple "Path" [Listing.quoted text]
  | quoted text => tuple "String" [Listing.quoted text]
  | bare text => tuple "Name" [Listing.quoted text]

/-- The listing of what a loop runs over. -/
def Iteration.listing : Iteration → Listing
  | range start stop => record "Range" [("start", start.listing), ("end", stop.listing)]
  | step start stop width => record "Step"
      [("start", start.listing), ("end", stop.listing), ("step", width.listing)]
  | countdown start stop width => record "Countdown"
      [("start", start.listing), ("end", stop.listing), ("step", width.listing)]
  | items value => record "Array" [("iterable", value.listing)]

/-- The listed names of the properties of a path, by their number. -/
def PropertyPath.titles : List String := ["first", "second", "third"]

/-- The listed name of a property assignment, by the number of names. -/
def PropertyPath.title (path : PropertyPath) : String :=
  match path.rest with
  | [] => "Two"
  | [_] => "Three"
  | _ => "Four"

/-- The listing of a property assignment. -/
def PropertyPath.listing (path : PropertyPath) (value : Expr) : Listing :=
  record path.title
    (("base", quoted path.base) ::
      (PropertyPath.titles.zip (path.properties.map quoted) ++ [("value", value.listing)]))

/-- A statement with its kind and line. -/
def Stmt.listed (line : Nat) (kind : Listing) : Listing :=
  record "Stmt" [("stmt_type", kind), ("line", count line)]

mutual

/-- The listing of a statement. -/
def Stmt.listing : Stmt → Listing
  | .use line target aliasName => Stmt.listed line
      (record "Use" [("path", target.listing), ("alias", quoted aliasName)])
  | .declare line name typed value => Stmt.listed line
      (record "Let" [("name", quoted name), ("annotation", typeListing typed),
        ("initializer", value.listing)])
  | .assign line name value => Stmt.listed line
      (record "Assign" [("name", quoted name), ("value", value.listing)])
  | .assignIndex line name position value => Stmt.listed line
      (record "IndexAssign"
        [("name", quoted name), ("index", position.listing), ("value", value.listing)])
  | .assignProperty line path value => Stmt.listed line
      (tuple "PropertyAssign" [path.listing value])
  | .define line name params returnType body => Stmt.listed line
      (tuple "Function" [record "FunctionDef"
        [("name", quoted name), ("params", list (params.map (·.listing))),
          ("return_type", typeListing returnType), ("body", list (Stmt.listings body))]])
  | .branch line condition whenTrue whenFalse => Stmt.listed line
      (record "If" [("condition", condition.listing),
        ("then_branch", list (Stmt.listings whenTrue)),
        ("else_branch", option (Stmt.blockListing? whenFalse))])
  | .repeatWhile line condition body => Stmt.listed line
      (record "While" [("condition", condition.listing), ("body", list (Stmt.listings body))])
  | .repeatOver line name iteration body => Stmt.listed line
      (tuple "For" [record "ForLoop" [("variable", quoted name), ("kind", iteration.listing),
        ("body", list (Stmt.listings body))]])
  | .select line subject cases otherwise => Stmt.listed line
      (record "Switch" [("subject", subject.listing),
        ("cases", list (Stmt.caseListings cases)),
        ("default", option (Stmt.blockListing? otherwise))])
  | .attempt line body failure handler => Stmt.listed line
      (record "Try" [("body", list (Stmt.listings body)), ("catch_var", quoted failure),
        ("handler", list (Stmt.listings handler))])
  | .print line arguments => Stmt.listed line
      (tuple "Print" [list (Expr.listings arguments)])
  | .giveBack line value => Stmt.listed line
      (tuple "Return" [option (value.map (·.listing))])
  | .leave line => Stmt.listed line (atom "Break")
  | .next line => Stmt.listed line (atom "Continue")
  | .evaluate value => Stmt.listed value.line (tuple "Expression" [value.listing])

/-- The listings of the statements of a block. -/
def Stmt.listings : List Stmt → List Listing
  | [] => []
  | stmt :: rest => stmt.listing :: Stmt.listings rest

/-- The listing of a block that may be absent. -/
def Stmt.blockListing? : Option (List Stmt) → Option Listing
  | none => none
  | some body => some (list (Stmt.listings body))

/-- The listings of the cases of a selection. -/
def Stmt.caseListings : List (Expr × List Stmt) → List Listing
  | [] => []
  | (value, body) :: rest =>
    record "SwitchCase" [("value", value.listing), ("body", list (Stmt.listings body))] ::
      Stmt.caseListings rest

end

/-- The text of the listing of a program. -/
def Block.listingText (program : Block) : String := (list (Stmt.listings program)).render 0

end DecimalScript
