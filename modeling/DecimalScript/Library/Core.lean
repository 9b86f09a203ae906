import DecimalScript.Library.Basic

/-!
# The core library

The core built-ins are called without an alias: the length, text and kind of a value,
and reading a line of input after an optional prompt and a flush.
-/

namespace DecimalScript

namespace Builtin

/-- The number of characters, elements or fields. -/
def length (value : Value) (line : Nat) : Except Fault Value :=
  match value with
  | .text s => .ok (.ofCount s.length)
  | .array items => .ok (.ofCount items.length)
  | .object fields => .ok (.ofCount fields.length)
  | other => .error (.badArgument "len" "a string, array or object" other.kind line)

/-- The text of a value, as a value. -/
def toText (value : Value) (_ : Nat) : Except Fault Value := .ok (.text value.display)

/-- The name of the kind of a value. -/
def kindName (value : Value) (_ : Nat) : Except Fault Value := .ok (.text value.kind.title)

/-- Reads a line of input, after writing a prompt if there is one. -/
def input (prompt : Option Value) (line : Nat) : Eval Value :=
  match prompt with
  | none => readText line
  | some prompt => do
    Eval.write prompt.display
    readText line
where
  /-- A line of input as a value, read after the output is flushed. -/
  readText (line : Nat) : Eval Value := do
    Eval.flush
    return .text (← Eval.readLine line)

/-- The built-ins of the core library. -/
def core : NameTable Builtin := [
  ("len", ofUnary length), ("str", ofUnary toText), ("type", ofUnary kindName),
  ("input", optional input)]

end Builtin

end DecimalScript
