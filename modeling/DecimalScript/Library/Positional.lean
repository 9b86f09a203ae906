import DecimalScript.Library.Table
import DecimalScript.Number.Words
import DecimalScript.Text.ByteSearch

/-!
# Built-ins that read values by position

The same built-ins, told as they work on a list of values. Each is kept beside the range of the
number of values it takes, and nothing else ties the positions it reads to that range. A position
without a value, a random draw from nothing, an integer that its word cannot hold and a cut inside a
character are panics: outcomes of their own, which are no failures of a program.
-/

namespace DecimalScript

/-- What no step may come to. -/
inductive Panic where
  /-- A value was read at a position that has none. -/
  | missingValue (position : Nat)
  /-- Something was drawn at random from nothing. -/
  | emptyDraw
  /-- A word cannot hold an integer, though nothing guards it. -/
  | overflow
  /-- A text was cut inside a character. -/
  | brokenCharacter
  deriving DecidableEq

/-- Evaluation by steps that may panic. -/
abbrev Steps (α : Type) := ExceptT Panic Eval α

/-- The number of characters, elements or fields of a value that has a length. -/
def Value.count? : Value → Option Nat
  | text s => some s.length
  | array items => some items.length
  | object fields => some fields.length
  | number _ | boolean _ | lambda _ _ _ | nothing => none

/-- A memory addressed by words of 64 bits has room for what a value is made of. -/
def Value.InMemory (value : Value) : Prop := ∀ n, value.count? = some n → n ≤ Number.maxRaw

namespace Steps

variable {α : Type}

/-- Evaluation that does not panic. -/
def ofEval (x : Eval α) : Steps α := ExceptT.lift x

/-- The value of a computation that touches no machine, or its fault. -/
def answer (result : Except Fault α) : Steps α := ofEval (Eval.ofExcept result)

/-- Stops with a fault. -/
def refuse (fault : Fault) : Steps α := ofEval (Eval.raise fault)

/-- The result of arithmetic on words. -/
def ofWords (result : Except Number.Overflow α) : Steps α :=
  match result with
  | .ok a => pure a
  | .error .unguarded => throw .overflow

/-- A count as an integer of 64 bits with a sign. -/
def asLong (n : Nat) : Steps Int := ofWords (Number.Word.long.plain n)

/-- The number with a given whole value. -/
def scaled (x : Int) : Steps Number :=
  match Number.ofInt? x with
  | some n => pure n
  | none => throw .overflow

/-- The value at a position. -/
def valueAt (values : List Value) (position : Nat) : Steps Value :=
  match values[position]? with
  | some value => pure value
  | none => throw (.missingValue position)

/-- The number argument at a position. -/
def numberAt (values : List Value) (position : Nat) (function : String) (line : Nat) :
    Steps Number := do
  answer (Builtin.numberArg function (← valueAt values position) line)

/-- The text argument at a position. -/
def textAt (values : List Value) (position : Nat) (function : String) (line : Nat) :
    Steps String := do
  answer (Builtin.textArg function (← valueAt values position) line)

/-- The array argument at a position. -/
def arrayAt (values : List Value) (position : Nat) (function : String) (line : Nat) :
    Steps (List Value) := do
  answer (Builtin.arrayArg function (← valueAt values position) line)

/-- A result of floating point, put into a word. -/
def ofFloating (function : String) (result : Float) (line : Nat) : Steps Value :=
  match Number.floatSteps result with
  | some n => return .number n
  | none => refuse (.notRepresentable function line)

/-- A random natural number below a bound. -/
def drawBelow (bound : Nat) : Steps Nat :=
  if bound = 0 then throw .emptyDraw else ofEval (Eval.random bound)

/-- A random integer between two, both included. -/
def drawBetween (low high : Int) : Steps Int :=
  if high < low then throw .emptyDraw
  else do return low + (← drawBelow ((high - low).toNat + 1))

/-- The number of characters before a byte offset. -/
def charsBefore (bytes : List UInt8) (offset : Nat) : Steps Nat :=
  match Text.decode? (bytes.take offset) with
  | some chars => pure chars.length
  | none => throw .brokenCharacter

/-- The number of characters before the first occurrence of a text in another, which is looked for
in bytes. -/
def placeIn (part text : String) : Steps (Option Nat) :=
  match Text.byteIndexIn? (Text.bytesOf part) (Text.bytesOf text) with
  | some offset => do return some (← charsBefore (Text.bytesOf text) offset)
  | none => pure none

/-- A place as a value, or minus one. -/
def placeValue (place : Option Nat) : Steps Value :=
  match place with
  | some i => do return .ofInt (← asLong i)
  | none => return .ofInt (-1)

end Steps

/-- What a built-in does with values and the line of its call. -/
abbrev Closure := List Value → Nat → Steps Value

/-- A built-in that reads values by position. -/
structure Positional where
  /-- The least number of values. -/
  least : Nat
  /-- The greatest number of values. -/
  greatest : Nat
  /-- What it does. -/
  run : Closure

namespace Positional

open Steps

/-- Whether a number of values is accepted. -/
def accepts (builtin : Positional) (count : Nat) : Bool :=
  builtin.least ≤ count && count ≤ builtin.greatest

/-! ### The core library -/

/-- The number of characters, elements or fields. -/
def length : Closure := fun values line => do
  let value ← valueAt values 0
  match value.count? with
  | some n => return .ofInt (← asLong n)
  | none => refuse (.badArgument "len" "a string, array or object" value.kind line)

/-- The text of a value. -/
def toText : Closure := fun values _ => do return .text (← valueAt values 0).display

/-- The name of the kind of a value. -/
def kindName : Closure := fun values _ => do return .text (← valueAt values 0).kind.title

/-- Reads a line of input, after writing a prompt if there is one and a flush. -/
def input : Closure := fun values line => do
  match values.head? with
  | some prompt => ofEval (Eval.write prompt.display)
  | none => pure ()
  ofEval Eval.flush
  return .text (← ofEval (Eval.readLine line))

/-- The built-ins of the core library. -/
def core : NameTable Positional := [
  ("len", ⟨1, 1, length⟩), ("str", ⟨1, 1, toText⟩), ("type", ⟨1, 1, kindName⟩),
  ("input", ⟨0, 1, input⟩)]

/-! ### The mathematical library -/

/-- The absolute value of a number, by a guarded negation. -/
def abs : Closure := fun values line => do
  let n ← numberAt values 0 "abs" line
  answer (Builtin.inRange "abs" n.absSteps line)

/-- A number rounded by arithmetic on words. -/
def rounding (name : String) (f : Number → Except Number.Overflow (Option Number)) : Closure :=
  fun values line => do
    let n ← numberAt values 0 name line
    answer (Builtin.inRange name (← ofWords (f n)) line)

/-- A power: by steps for an exponent that is a natural number, else in floating point. -/
def pow : Closure := fun values line => do
  let base ← numberAt values 0 "pow" line
  let exponent ← numberAt values 1 "pow" line
  if exponent.isIntegral && 0 ≤ exponent.raw then
    let whole ← ofWords (Number.Word.long.plain exponent.whole)
    let result ← ofWords (Number.powerSteps .one base whole.toNat)
    answer (Builtin.inRange "pow" result line)
  else ofFloating "pow" (base.toFloat.pow exponent.toFloat) line

/-- The square root of a number that is not negative. -/
def sqrt : Closure := fun values line => do
  let n ← numberAt values 0 "sqrt" line
  if n.raw < 0 then refuse (.invalidOperation "sqrt() of a negative number" line)
  else ofFloating "sqrt" n.toFloat.sqrt line

/-- A function of floating point. -/
def floating (name : String) (f : Float → Float) : Closure := fun values line => do
  ofFloating name (f (← numberAt values 0 name line).toFloat) line

/-- The smaller of two numbers. -/
def min : Closure := fun values line => do
  let a ← numberAt values 0 "min" line
  let b ← numberAt values 1 "min" line
  return .number (if b.raw < a.raw then b else a)

/-- The larger of two numbers. -/
def max : Closure := fun values line => do
  let a ← numberAt values 0 "max" line
  let b ← numberAt values 1 "max" line
  return .number (if b.raw < a.raw then a else b)

/-- A random number from zero to one. -/
def random : Closure := fun _ line => do
  ofFloating "random" (Builtin.fraction (← drawBelow Builtin.fractionSteps)) line

/-- A random whole number between the whole parts of two numbers, both included. -/
def randomInt : Closure := fun values line => do
  let low ← ofWords (Number.Word.long.plain (← numberAt values 0 "randint" line).whole)
  let high ← ofWords (Number.Word.long.plain (← numberAt values 1 "randint" line).whole)
  if high < low then
    refuse (.invalidOperation "randint() needs low <= high" line)
  else return .number (← scaled (← drawBetween low high))

/-- A random element of an array that is not empty. -/
def choice : Closure := fun values line => do
  let items ← arrayAt values 0 "choice" line
  if items.isEmpty then refuse (.invalidOperation "choice() of an empty array" line)
  else valueAt items (← drawBelow items.length)

/-- The mathematical constants by name. -/
def constant? (name : String) : Option Value :=
  if name == "PI" then (Number.floatSteps 3.141592653589793).map .number
  else if name == "E" then (Number.floatSteps 2.718281828459045).map .number
  else none

/-- A mathematical constant by its name. -/
def getConstant : Closure := fun values line => do
  let name ← textAt values 0 "get_constant" line
  match constant? name with
  | some value => return value
  | none => refuse (.invalidOperation s!"unknown constant '{name}'" line)

/-- The built-ins of the mathematical library. -/
def math : NameTable Positional := [
  ("abs", ⟨1, 1, abs⟩), ("pow", ⟨2, 2, pow⟩), ("sqrt", ⟨1, 1, sqrt⟩),
  ("floor", ⟨1, 1, rounding "floor" Number.floorSteps⟩),
  ("ceil", ⟨1, 1, rounding "ceil" Number.ceilSteps⟩),
  ("sin", ⟨1, 1, floating "sin" Float.sin⟩), ("cos", ⟨1, 1, floating "cos" Float.cos⟩),
  ("tan", ⟨1, 1, floating "tan" Float.tan⟩), ("min", ⟨2, 2, min⟩), ("max", ⟨2, 2, max⟩),
  ("random", ⟨0, 0, random⟩), ("randint", ⟨2, 2, randomInt⟩), ("choice", ⟨1, 1, choice⟩),
  ("get_constant", ⟨1, 1, getConstant⟩)]

/-! ### The utility library -/

/-- Whether a value is a number. -/
def isNumber : Value → Bool
  | .number _ => true
  | _ => false

/-- Whether a value is a text. -/
def isText : Value → Bool
  | .text _ => true
  | _ => false

/-- Whether a value is an array. -/
def isArray : Value → Bool
  | .array _ => true
  | _ => false

/-- Whether a value is an object. -/
def isObject : Value → Bool
  | .object _ => true
  | _ => false

/-- A test of a value. -/
def test (matched : Value → Bool) : Closure := fun values _ => do
  return .boolean (matched (← valueAt values 0))

/-- The position of the first equal element of an array, or of the first occurrence in a text. -/
def find : Closure := fun values line => do
  match ← valueAt values 0, ← valueAt values 1 with
  | .array items, needle => placeValue (items.findIdx? (·.equal needle))
  | .text s, .text needle => placeValue (← placeIn needle s)
  | other, _ => refuse (.badArgument "find" "an array or string" other.kind line)

/-- A value as it is. -/
def copy : Closure := fun values _ => valueAt values 0

/-- Whether an object has a field or an array an element. The second value is looked at only
then. -/
def has : Closure := fun values line => do
  match ← valueAt values 0 with
  | .object fields =>
    let key ← textAt values 1 "has" line
    return .boolean ((Value.object fields).property? key).isSome
  | .array items =>
    let needle ← valueAt values 1
    return .boolean (items.any (·.equal needle))
  | other => refuse (.badArgument "has" "an object or array" other.kind line)

/-- The first element of an array, or nothing. -/
def first : Closure := fun values line => do
  return (← arrayAt values 0 "first" line)[0]?.getD .nothing

/-- The last element of an array, or nothing. -/
def last : Closure := fun values line => do
  let items ← arrayAt values 0 "last" line
  return items[items.length - 1]?.getD .nothing

/-- An array with one more element. -/
def push : Closure := fun values line => do
  let items ← arrayAt values 0 "push" line
  return .array (items ++ [← valueAt values 1])

/-- An array without its last element. -/
def pop : Closure := fun values line => do
  let items ← arrayAt values 0 "pop" line
  return .array (items.take (items.length - 1))

/-- An array or text in reverse order. -/
def reverse : Closure := fun values line => do
  match ← valueAt values 0 with
  | .array items => return .array items.reverse
  | .text s => return .text (String.ofList s.toList.reverse)
  | other => refuse (.badArgument "reverse" "an array or string" other.kind line)

/-- The built-ins of the utility library. -/
def util : NameTable Positional := [
  ("type", ⟨1, 1, kindName⟩), ("str", ⟨1, 1, toText⟩), ("len", ⟨1, 1, length⟩),
  ("is_num", ⟨1, 1, test isNumber⟩), ("is_str", ⟨1, 1, test isText⟩),
  ("is_arr", ⟨1, 1, test isArray⟩), ("is_obj", ⟨1, 1, test isObject⟩),
  ("find", ⟨2, 2, find⟩), ("copy", ⟨1, 1, copy⟩), ("has", ⟨2, 2, has⟩),
  ("first", ⟨1, 1, first⟩), ("last", ⟨1, 1, last⟩), ("push", ⟨2, 2, push⟩),
  ("pop", ⟨1, 1, pop⟩), ("reverse", ⟨1, 1, reverse⟩)]

/-! ### The text library -/

/-- A function of one text. -/
def onText (name : String) (f : String → String) : Closure := fun values line => do
  return .text (f (← textAt values 0 name line))

/-- The parts of a text between separators. -/
def split : Closure := fun values line => do
  let s ← textAt values 0 "split" line
  let separator ← textAt values 1 "split" line
  if separator.isEmpty then return .array (s.toList.map .ofChar)
  else return .array ((Text.splitAt separator.toList s.toList).map (.text ∘ String.ofList))

/-- The texts of the elements of an array with a separator between them. -/
def join : Closure := fun values line => do
  let items ← arrayAt values 0 "join" line
  let separator ← textAt values 1 "join" line
  return .text (String.intercalate separator (items.map (·.display)))

/-- Whether a text occurs in another. -/
def contains : Closure := fun values line => do
  let s ← textAt values 0 "contains" line
  let part ← textAt values 1 "contains" line
  return .boolean (Text.occursIn part.toList s.toList)

/-- A text with every occurrence of a part replaced. -/
def replace : Closure := fun values line => do
  let s ← textAt values 0 "replace" line
  let part ← textAt values 1 "replace" line
  let replacement ← textAt values 2 "replace" line
  if part.isEmpty then return .text s
  else return .text (String.ofList (Text.replaceAll part.toList replacement.toList s.toList))

/-- The built-ins of the text library. -/
def text : NameTable Positional := [
  ("upper", ⟨1, 1, onText "upper" Text.upper⟩), ("lower", ⟨1, 1, onText "lower" Text.lower⟩),
  ("trim", ⟨1, 1, onText "trim" Text.trimmed⟩), ("split", ⟨2, 2, split⟩),
  ("join", ⟨2, 2, join⟩), ("contains", ⟨2, 2, contains⟩), ("replace", ⟨3, 3, replace⟩)]

end Positional

namespace Library

/-- The built-ins of a library by position. -/
def positionals : Library → NameTable Positional
  | core => Positional.core
  | math => Positional.math
  | util => Positional.util
  | text => Positional.text

/-- The built-in of a library with a given name, by position. -/
def positional? (library : Library) (name : String) : Option Positional :=
  library.positionals.get? name

end Library

end DecimalScript
