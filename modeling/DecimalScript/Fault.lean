import DecimalScript.Value.Basic

/-!
# Faults of running programs

Faults are raised by evaluation and can be handled by the program, except the one that
would show an inconsistent state. Loop faults end a loop that passed a limit and are
only reported. Both have a compact code made of a severity, a subsystem and a number.
-/

namespace DecimalScript

/-- Faults raised by evaluation, each with the line it is reported for. -/
inductive Fault where
  /-- A division by zero. -/
  | divisionByZero (line : Nat)
  /-- A remainder by zero. -/
  | moduloByZero (line : Nat)
  /-- A name without a binding. -/
  | undefinedVariable (name : String) (line : Nat)
  /-- A value of the wrong kind. -/
  | typeMismatch (detail : String) (line : Nat)
  /-- An operation that has no result. -/
  | invalidOperation (detail : String) (line : Nat)
  /-- Too many calls in progress. -/
  | recursion (limit : Nat) (line : Nat)
  /-- A call that is not possible. -/
  | functionCall (detail : String) (line : Nat)
  /-- An inconsistent state. -/
  | badMemory (detail : String) (line : Nat)
  /-- No input, or input that is not text. -/
  | inputFailed (line : Nat)
  /-- Input that has no meaning. -/
  | invalidInput (detail : String) (line : Nat)
  deriving DecidableEq, Repr

/-- Faults that end a loop. -/
inductive LoopFault where
  /-- A loop took too many turns. -/
  | iterationLimit (limit : Nat) (line : Nat)
  /-- Too many loops are nested. -/
  | depthExceeded (limit : Nat) (line : Nat)
  deriving DecidableEq, Repr

/-- How grave a fault is. -/
inductive Severity where
  | error | fatal
  deriving DecidableEq, Repr

/-- The digit of a severity in a code. -/
def Severity.digit : Severity → Nat
  | error => 0x2
  | fatal => 0xF

/-- What a fault concerns. -/
inductive Subsystem where
  | running | arithmetic | kinds | input
  deriving DecidableEq, Repr

/-- The digit of a subsystem in a code. -/
def Subsystem.digit : Subsystem → Nat
  | running => 0x0
  | arithmetic => 0x1
  | kinds => 0x2
  | input => 0x4

/-- The code of a fault. -/
structure FaultCode where
  /-- How grave it is. -/
  severity : Severity := .error
  /-- What it concerns. -/
  subsystem : Subsystem
  /-- Its number. -/
  number : Nat
  deriving DecidableEq, Repr

namespace FaultCode

/-- The code as one number: severity, then subsystem and number of two digits each. -/
def packed (code : FaultCode) : Nat :=
  code.severity.digit * 0x10000 + code.subsystem.digit * 0x100 + code.number

/-- The code as text: the letter E and at least five hexadecimal digits. -/
def text (code : FaultCode) : String :=
  let digits := (Nat.toDigits 16 code.packed).map Char.toUpper
  String.ofList ('E' :: List.replicate (5 - digits.length) '0' ++ digits)

end FaultCode

namespace Fault

/-- The line a fault is reported for. -/
def line : Fault → Nat
  | divisionByZero line | moduloByZero line | undefinedVariable _ line | typeMismatch _ line
  | invalidOperation _ line | recursion _ line | functionCall _ line | badMemory _ line
  | inputFailed line | invalidInput _ line => line

/-- The wording of a fault. -/
def message : Fault → String
  | divisionByZero _ => "Division by zero"
  | moduloByZero _ => "Modulo by zero"
  | undefinedVariable name _ => s!"Undefined variable '{name}'"
  | typeMismatch detail _ => s!"Type mismatch: {detail}"
  | invalidOperation detail _ => s!"Invalid operation: {detail}"
  | recursion limit _ => s!"Maximum call depth of {limit} exceeded"
  | functionCall detail _ => s!"Function call failed: {detail}"
  | badMemory detail _ => s!"Internal state corrupted: {detail}"
  | inputFailed _ => "Failed to read input"
  | invalidInput detail _ => s!"Invalid input: {detail}"

/-- The short text that a handler sees. -/
def description : Fault → String
  | divisionByZero _ => "division by zero"
  | moduloByZero _ => "modulo by zero"
  | undefinedVariable _ _ => "undefined variable"
  | typeMismatch _ _ => "type mismatch"
  | invalidOperation _ _ => "invalid operation"
  | recursion _ _ => "maximum recursion depth exceeded"
  | functionCall _ _ => "function call failed"
  | badMemory _ _ => "bad memory access"
  | inputFailed _ => "input failed"
  | invalidInput _ _ => "invalid input"

/-- The code of a fault. -/
def code : Fault → FaultCode
  | divisionByZero _ => { subsystem := .arithmetic, number := 0x01 }
  | moduloByZero _ => { subsystem := .arithmetic, number := 0x02 }
  | undefinedVariable _ _ => { subsystem := .running, number := 0x03 }
  | typeMismatch _ _ => { subsystem := .kinds, number := 0x04 }
  | invalidOperation _ _ => { subsystem := .running, number := 0x05 }
  | recursion _ _ => { subsystem := .running, number := 0x06 }
  | functionCall _ _ => { subsystem := .running, number := 0x07 }
  | badMemory _ _ => { severity := .fatal, subsystem := .running, number := 0x08 }
  | inputFailed _ => { subsystem := .input, number := 0x09 }
  | invalidInput _ _ => { subsystem := .input, number := 0x0A }

/-- A fatal fault cannot be handled by the program. -/
def isFatal (fault : Fault) : Bool := fault.code.severity == .fatal

/-- A result out of range. -/
def overflow (symbol : String) (line : Nat) : Fault :=
  .invalidOperation s!"numeric overflow in '{symbol}'" line

/-- The negation of something that is no number. -/
def cannotNegate (kind : Value.Kind) (line : Nat) : Fault :=
  .typeMismatch s!"cannot negate a {kind.title}" line

/-- Arithmetic on something that is no number. -/
def needsNumbers (op : BinaryOp) (left right : Value.Kind) (line : Nat) : Fault :=
  .typeMismatch s!"'{op.symbol}' needs numbers, found {left.title} and {right.title}" line

/-- A comparison of values that have no order. -/
def cannotCompare (left right : Value.Kind) (line : Nat) : Fault :=
  .typeMismatch s!"cannot compare {left.title} with {right.title}" line

/-- A loop over a value without items. -/
def cannotIterate (kind : Value.Kind) (line : Nat) : Fault :=
  .typeMismatch s!"cannot iterate over a {kind.title}" line

/-- A loop bound that is no number. -/
def badBound (kind : Value.Kind) (line : Nat) : Fault :=
  .typeMismatch s!"loop bounds must be numbers, found {kind.title}" line

/-- An index that no element has. -/
def outOfBounds (index : String) (length : Nat) (line : Nat) : Fault :=
  .invalidOperation s!"index {index} out of bounds for length {length}" line

/-- A property that an object lacks. -/
def noProperty (name : String) (line : Nat) : Fault :=
  .invalidOperation s!"object has no property '{name}'" line

/-- A property of a value that has none. -/
def cannotRead (name : String) (kind : Value.Kind) (line : Nat) : Fault :=
  .typeMismatch s!"cannot read property '{name}' of a {kind.title}" line

/-- An index of the wrong kind, or into a value without elements. -/
def cannotIndex (target index : Value.Kind) (line : Nat) : Fault :=
  .typeMismatch s!"cannot index a {target.title} with a {index.title}" line

/-- An indexed assignment with an index of the wrong kind, or into a value without elements. -/
def cannotAssignIndex (target index : Value.Kind) (line : Nat) : Fault :=
  .typeMismatch s!"cannot assign into a {target.title} with a {index.title} index" line

/-- A property assignment to a value that is no object. -/
def cannotSet (fault : Value.PathFault) (line : Nat) : Fault :=
  .typeMismatch s!"cannot set property '{fault.property}' on a {fault.kind.title}" line

/-- A call with the wrong number of arguments. -/
def wrongCount (name : String) (expected : String) (found : Nat) (line : Nat) : Fault :=
  .functionCall s!"'{name}' expects {expected} arguments, got {found}" line

/-- A call of a name without a function. -/
def undefinedFunction (name : String) (line : Nat) : Fault :=
  .functionCall s!"undefined function '{name}'" line

/-- A call of a variable that holds no function. -/
def notFunction (name : String) (kind : Value.Kind) (line : Nat) : Fault :=
  .functionCall s!"'{name}' is a {kind.title}, not a function" line

/-- A call of a value that is no function. -/
def cannotCall (kind : Value.Kind) (line : Nat) : Fault :=
  .functionCall s!"cannot call a {kind.title}" line

/-- A built-in argument of the wrong kind. -/
def badArgument (function expected : String) (found : Value.Kind) (line : Nat) : Fault :=
  .typeMismatch s!"{function}() expects {expected}, found {found.title}" line

/-- A built-in result out of range. -/
def overflowed (function : String) (line : Nat) : Fault :=
  .invalidOperation s!"{function}() overflowed" line

/-- A built-in result that no number represents. -/
def notRepresentable (function : String) (line : Nat) : Fault :=
  .invalidOperation s!"{function}() result is not a representable number" line

end Fault

namespace LoopFault

/-- The line a loop fault is reported for. -/
def line : LoopFault → Nat
  | iterationLimit _ line | depthExceeded _ line => line

/-- The wording of a loop fault. -/
def message : LoopFault → String
  | iterationLimit limit _ => s!"Loop exceeded the maximum of {limit} iterations"
  | depthExceeded limit _ => s!"Loop nesting exceeded the maximum depth of {limit}"

/-- The code of a loop fault. -/
def code : LoopFault → FaultCode
  | iterationLimit _ _ => { subsystem := .running, number := 0x0B }
  | depthExceeded _ _ => { subsystem := .running, number := 0x0C }

end LoopFault

end DecimalScript
