import DecimalScript.Token.Basic

/-!
# Faults of syntax

A fault says what a token list lacks at the token where reading stopped. Each cause has
one wording; the message adds the lexeme of that token, or says that the input ended.
-/

namespace DecimalScript

/-- The constructs that end with their own closing word. -/
inductive Construct where
  | functionBody | ifStatement | whileLoop | forLoop | tryStatement
  deriving DecidableEq, Repr

/-- The name of a construct in messages. -/
def Construct.title : Construct → String
  | functionBody => "function body"
  | ifStatement => "if statement"
  | whileLoop => "while loop"
  | forLoop => "for loop"
  | tryStatement => "try statement"

/-- The places a colon must follow. -/
inductive ColonPlace where
  | functionSignature | ifCondition | elseWord | whileCondition | forStart | forRange
  | switchSubject | caseValue | defaultWord | tryWord | catchName | propertyName
  deriving DecidableEq, Repr

/-- The name of a place in messages. -/
def ColonPlace.title : ColonPlace → String
  | functionSignature => "function signature"
  | ifCondition => "if condition"
  | elseWord => "'else'"
  | whileCondition => "while condition"
  | forStart => "for-loop range start or iterable"
  | forRange => "for-loop range"
  | switchSubject => "switch subject"
  | caseValue => "case value"
  | defaultWord => "'default'"
  | tryWord => "'try'"
  | catchName => "catch variable"
  | propertyName => "property name"

/-- The places a semicolon must follow. -/
inductive SemicolonPlace where
  | loopControl | letBinding | printStatement | returnStatement
  deriving DecidableEq, Repr

/-- The name of a place in messages. -/
def SemicolonPlace.title : SemicolonPlace → String
  | loopControl => "loop control"
  | letBinding => "let binding"
  | printStatement => "print statement"
  | returnStatement => "return statement"

/-- The lists whose items a comma must separate. -/
inductive CommaPlace where
  | parameters | lambdaParameters | arguments
  deriving DecidableEq, Repr

/-- The name of a list in messages. -/
def CommaPlace.title : CommaPlace → String
  | parameters => "parameters"
  | lambdaParameters => "lambda parameters"
  | arguments => "arguments"

/-- The places where a name must stand. -/
inductive NamePlace where
  | aliasName | function | parameter | lambdaParameter | letBinding | loopName | failure | member
  | field
  deriving DecidableEq, Repr

/-- What a place lacks without its name. -/
def NamePlace.title : NamePlace → String
  | aliasName => "alias after 'as'"
  | function => "function name"
  | parameter => "parameter name"
  | lambdaParameter => "lambda parameter name"
  | letBinding => "identifier after 'let'"
  | loopName => "loop variable after 'for'"
  | failure => "identifier after 'catch'"
  | member => "property name after '.'"
  | field => "property name in object literal"

/-- Why a token list is not a program. -/
inductive SyntaxFault where
  /-- A closing word stands where no block is open. -/
  | outsideBlock
  /-- A construct lacks its closing word. -/
  | unclosed (construct : Construct)
  /-- A colon is missing. -/
  | missingColon (place : ColonPlace)
  /-- A semicolon is missing. -/
  | missingSemicolon (place : SemicolonPlace)
  /-- A comma is missing. -/
  | missingComma (place : CommaPlace)
  /-- A name is missing. -/
  | missingName (place : NamePlace)
  /-- An import lacks its target. -/
  | missingTarget
  /-- An import lacks the word before its alias. -/
  | missingAs
  /-- An annotation lacks its type. -/
  | missingType
  /-- A function name lacks its parameter list. -/
  | missingParameters
  /-- A declaration lacks its equals sign. -/
  | missingEqual
  /-- A lambda lacks its arrow. -/
  | missingFatArrow
  /-- A `for` loop lacks the word after its variable. -/
  | missingIn
  /-- A selection goes on with something that is neither a case nor its end. -/
  | badSelection
  /-- A guarded block lacks its handler. -/
  | missingCatch
  /-- A print statement lacks its argument list. -/
  | missingPrintList
  /-- A property assignment names too many properties. -/
  | deepPath
  /-- An index lacks its closing bracket. -/
  | unclosedIndex
  /-- A minus sign stands before something other than a number. -/
  | badMinus
  /-- A parenthesis is not closed. -/
  | unclosedParen
  /-- No expression starts here. -/
  | missingExpression
  /-- An array ends with a comma. -/
  | arrayTrailingComma
  /-- An array element is followed by something else. -/
  | badArray
  /-- An object ends with a comma. -/
  | objectTrailingComma
  /-- An object field is followed by something else. -/
  | badObject
  deriving DecidableEq, Repr

/-- The wording of a cause. -/
def SyntaxFault.title : SyntaxFault → String
  | outsideBlock => "Unexpected token outside of a block"
  | unclosed construct => s!"Expected 'end' to close {construct.title}"
  | missingColon place => s!"Expected ':' after {place.title}"
  | missingSemicolon place => s!"Expected ';' after {place.title}"
  | missingComma place => s!"Expected ',' between {place.title}"
  | missingName place => s!"Expected {place.title}"
  | missingTarget => "Expected module path after 'use'"
  | missingAs => "Expected 'as' after module path"
  | missingType => "Expected type name"
  | missingParameters => "Expected '(' after function name"
  | missingEqual => "Expected '=' after identifier in let"
  | missingFatArrow => "Expected '=>' after lambda parameters"
  | missingIn => "Expected 'in' after loop variable"
  | badSelection => "Expected 'case', 'default' or 'end' in switch statement"
  | missingCatch => "Expected 'catch' after try block"
  | missingPrintList => "Expected '(' after 'print'"
  | deepPath => "Property assignment chain deeper than 4 levels"
  | unclosedIndex => "Expected ']' after index"
  | badMinus => "Unary minus is only supported before numeric literals"
  | unclosedParen => "Expected ')' after expression"
  | missingExpression => "Expected expression"
  | arrayTrailingComma => "Trailing comma in array literal"
  | badArray => "Expected ',' or ']' in array literal"
  | objectTrailingComma => "Trailing comma in object literal"
  | badObject => "Expected ',' or '\x7d' in object literal"

/-- A fault of syntax at a token. -/
structure SyntaxError where
  /-- What is wrong. -/
  fault : SyntaxFault
  /-- The lexeme of the token; it is empty at the end of the input. -/
  found : String
  /-- The line of the token. -/
  line : Nat
  deriving DecidableEq, Repr

namespace SyntaxError

/-- The fault at a given token. -/
def ofToken (fault : SyntaxFault) (token : Token) : SyntaxError :=
  ⟨fault, token.lexeme, token.line⟩

/-- The wording of an error without its line. -/
def message (e : SyntaxError) : String :=
  if e.found.isEmpty then s!"{e.fault.title} at end of input"
  else s!"{e.fault.title}, found '{e.found}'"

end SyntaxError

end DecimalScript
