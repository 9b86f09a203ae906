import DecimalScript.Eval.Operators
import DecimalScript.Machine
import DecimalScript.Number.Float

/-!
# Built-in functions

A built-in function is kept together with the number of values it takes: the function
itself has exactly that many parameters, so it is applied to a list of values only
where the list has a fitting length. Most built-ins look at values only; reading input
and drawing random numbers act on the machine.
-/

namespace DecimalScript

/-- A built-in function of evaluated arguments and the line of its call. -/
inductive Builtin where
  /-- A function of no value. -/
  | nullary (run : Nat → Eval Value)
  /-- A function of one value. -/
  | unary (run : Value → Nat → Eval Value)
  /-- A function of two values. -/
  | binary (run : Value → Value → Nat → Eval Value)
  /-- A function of three values. -/
  | ternary (run : Value → Value → Value → Nat → Eval Value)
  /-- A function of at most one value. -/
  | optional (run : Option Value → Nat → Eval Value)

namespace Builtin

/-- The least and the greatest number of values. -/
def arity : Builtin → Nat × Nat
  | nullary _ => (0, 0)
  | unary _ => (1, 1)
  | binary _ => (2, 2)
  | ternary _ => (3, 3)
  | optional _ => (0, 1)

/-- Whether a number of values is accepted. -/
def accepts (builtin : Builtin) (count : Nat) : Bool :=
  builtin.arity.1 ≤ count && count ≤ builtin.arity.2

/-- The number of values in messages. -/
def arityText (builtin : Builtin) : String :=
  let (least, greatest) := builtin.arity
  if least = greatest then toString least else s!"{least} to {greatest}"

/-- Applies a built-in to values, if it accepts that many. -/
def applyTo? (builtin : Builtin) (values : List Value) (line : Nat) : Option (Eval Value) :=
  match builtin, values with
  | nullary run, [] => some (run line)
  | unary run, [a] => some (run a line)
  | binary run, [a, b] => some (run a b line)
  | ternary run, [a, b, c] => some (run a b c line)
  | optional run, [] => some (run none line)
  | optional run, [a] => some (run (some a) line)
  | _, _ => none

/-- A built-in applies exactly where it accepts the number of values. -/
theorem isSome_applyTo? (builtin : Builtin) (values : List Value) (line : Nat) :
    (builtin.applyTo? values line).isSome = builtin.accepts values.length := by
  rcases values with _ | ⟨a, _ | ⟨b, _ | ⟨c, _ | ⟨d, rest⟩⟩⟩⟩ <;> cases builtin <;>
    simp [applyTo?, accepts, arity]

section

variable {values : List Value} {line : Nat} {answer : Eval Value}

/-- A built-in of no value applies to none. -/
theorem nullary_applies {run : Nat → Eval Value} :
    (nullary run).applyTo? values line = some answer ↔ values = [] ∧ run line = answer := by
  rcases values with _ | ⟨a, rest⟩ <;> simp [applyTo?]

/-- A built-in of one value applies to one. -/
theorem unary_applies {run : Value → Nat → Eval Value} :
    (unary run).applyTo? values line = some answer ↔ ∃ a, values = [a] ∧ run a line = answer := by
  rcases values with _ | ⟨a, _ | ⟨b, rest⟩⟩ <;> simp [applyTo?]

/-- A built-in of two values applies to two. -/
theorem binary_applies {run : Value → Value → Nat → Eval Value} :
    (binary run).applyTo? values line = some answer ↔
      ∃ a b, values = [a, b] ∧ run a b line = answer := by
  rcases values with _ | ⟨a, _ | ⟨b, _ | ⟨c, rest⟩⟩⟩ <;> simp [applyTo?, and_assoc]

/-- A built-in of three values applies to three. -/
theorem ternary_applies {run : Value → Value → Value → Nat → Eval Value} :
    (ternary run).applyTo? values line = some answer ↔
      ∃ a b c, values = [a, b, c] ∧ run a b c line = answer := by
  rcases values with _ | ⟨a, _ | ⟨b, _ | ⟨c, _ | ⟨d, rest⟩⟩⟩⟩ <;> simp [applyTo?, and_assoc]

/-- A built-in of a value that may be missing applies to none and to one. -/
theorem optional_applies {run : Option Value → Nat → Eval Value} :
    (optional run).applyTo? values line = some answer ↔
      ∃ a, values = Option.toList a ∧ run a line = answer := by
  rcases values with _ | ⟨a, _ | ⟨b, rest⟩⟩ <;> simp [applyTo?, Option.exists]

end

/-- A built-in of one value that looks at the value only. -/
def ofUnary (run : Value → Nat → Except Fault Value) : Builtin :=
  unary fun a line => Eval.ofExcept (run a line)

/-- A built-in of two values that looks at the values only. -/
def ofBinary (run : Value → Value → Nat → Except Fault Value) : Builtin :=
  binary fun a b line => Eval.ofExcept (run a b line)

/-- A built-in of three values that looks at the values only. -/
def ofTernary (run : Value → Value → Value → Nat → Except Fault Value) : Builtin :=
  ternary fun a b c line => Eval.ofExcept (run a b c line)

/-- A number argument of a built-in. -/
def numberArg (function : String) (value : Value) (line : Nat) : Except Fault Number :=
  match value with
  | .number n => .ok n
  | other => .error (.badArgument function "a number" other.kind line)

/-- A text argument of a built-in. -/
def textArg (function : String) (value : Value) (line : Nat) : Except Fault String :=
  match value with
  | .text s => .ok s
  | other => .error (.badArgument function "a string" other.kind line)

/-- An array argument of a built-in. -/
def arrayArg (function : String) (value : Value) (line : Nat) : Except Fault (List Value) :=
  match value with
  | .array items => .ok items
  | other => .error (.badArgument function "an array" other.kind line)

/-- A result that may be out of range. -/
def inRange (function : String) (result : Option Number) (line : Nat) : Except Fault Value :=
  match result with
  | some n => .ok (.number n)
  | none => .error (.overflowed function line)

/-- A result of floating point. -/
def ofFloat (function : String) (result : Float) (line : Nat) : Except Fault Value :=
  match Number.ofFloat? result with
  | some n => .ok (.number n)
  | none => .error (.notRepresentable function line)

end Builtin

end DecimalScript
