import DecimalScript.Environment
import DecimalScript.Failure
import DecimalScript.Loop.Stack
import DecimalScript.Sink

/-!
# The state of a running program

A machine holds what statements read and change: variables, functions, modules, loops
in progress, the sinks and the input. Evaluation is a function of the machine that ends
with a value or a stop; either way it gives the machine as it is then, since effects
that came before a failure stay.
-/

namespace DecimalScript

/-- The built-in libraries. -/
inductive Library where
  | core | math | util | text
  deriving DecidableEq, Repr

namespace Library

/-- The name of a library. -/
def title : Library → String
  | core => "core"
  | math => "math"
  | util => "util"
  | text => "text"

/-- The libraries that an import can name. -/
def importable : List Library := [math, util, text]

/-- The library that an import names, if it names one. -/
def ofImport? (name : String) : Option Library := importable.find? (·.title == name)

/-- The library of a given name. -/
def ofTitle? (name : String) : Option Library := (core :: importable).find? (·.title == name)

end Library

/-- What an alias stands for. -/
inductive Module where
  /-- A built-in library. -/
  | library (library : Library)
  /-- A module file and the program read from it. -/
  | source (path : Path) (program : Block)

/-- How a statement ended. -/
inductive Flow where
  /-- The next statement follows. -/
  | normal
  /-- A loop or selection is left. -/
  | leave
  /-- The next turn of a loop follows. -/
  | next
  /-- A function is left with a value. -/
  | giveBack (value : Value)

/-- What is drawn at random: how the draws come out one after the other, each from the natural
numbers below a bound, and how many were taken. -/
structure Draws where
  /-- What comes out, by the number of draws before and the bound. -/
  draw : Nat → Nat → Nat
  /-- What comes out is below a bound that is not zero. -/
  draw_lt : ∀ before bound, 0 < bound → draw before bound < bound
  /-- How many draws were taken. -/
  taken : Nat := 0

namespace Draws

/-- Draws that always come out as zero. -/
def zeros : Draws where
  draw _ _ := 0
  draw_lt _ _ h := h

/-- The next draw. -/
def next (draws : Draws) (bound : Nat) : Nat := draws.draw draws.taken bound

/-- The draws after the next one. -/
def rest (draws : Draws) : Draws := { draws with taken := draws.taken + 1 }

/-- The next draw is below its bound. -/
theorem next_lt (draws : Draws) {bound : Nat} (h : 0 < bound) : draws.next bound < bound :=
  draws.draw_lt _ _ h

end Draws

/-- The state of a running program. -/
structure Machine where
  /-- The variables. -/
  env : Environment := {}
  /-- The functions, by plain and by qualified names. -/
  functions : NameTable Function := []
  /-- The modules by their aliases. -/
  modules : NameTable Module := []
  /-- The loops in progress. -/
  loops : Loop.Stack := {}
  /-- The number of calls in progress. -/
  callDepth : Nat := 0
  /-- The greatest number of calls in progress. -/
  maxCallDepth : Nat := 200
  /-- The directory that imports are relative to. -/
  baseDir : Path := ⟨"."⟩
  /-- The modules that are being loaded, by their canonical paths, innermost first. -/
  loading : List Path := []
  /-- The identity of the next lambda. -/
  nextLambda : Nat := 0
  /-- Where printed text goes. -/
  output : Sink := {}
  /-- Where reports go. -/
  errors : Sink := {}
  /-- The input that was not read yet. -/
  input : List UInt8 := []
  /-- The files that can be loaded. -/
  files : FileTree := {}
  /-- Whether reports are painted red. -/
  color : Bool := true
  /-- What is drawn at random. -/
  draws : Draws := .zeros

namespace Machine

/-- The library that an alias stands for. -/
def library? (m : Machine) (aliasName : String) : Option Library :=
  match m.modules.get? aliasName with
  | some (.library library) => some library
  | _ => none

end Machine

/-- Why evaluation stopped without a value. -/
inductive Stop where
  /-- Something went wrong. -/
  | failed (failure : Failure)
  /-- The bound on nested evaluation was too small. -/
  | exhausted

/-- Evaluation: a function of the machine that ends with a value or a stop. -/
abbrev Eval (α : Type) := EStateM Stop Machine α

namespace Eval

variable {α : Type}

/-- Stops with a failure. -/
def fail (failure : Failure) : Eval α := throw (.failed failure)

/-- Stops with a fault of evaluation. -/
def raise (fault : Fault) : Eval α := fail (.running fault)

/-- Stops because the bound on nested evaluation was too small. -/
def exhausted : Eval α := throw .exhausted

/-- The value of a computation that touches no machine, or its fault. -/
def ofExcept (result : Except Fault α) : Eval α :=
  match result with
  | .ok value => pure value
  | .error fault => raise fault

/-- Evaluates, and then changes the machine whether or not that succeeded. -/
def afterwards (body : Eval α) (change : Machine → Machine) : Eval α := fun m =>
  match body m with
  | .ok value m => .ok value (change m)
  | .error stop m => .error stop (change m)

/-- Writes to the output. -/
def write (text : String) : Eval Unit := fun m =>
  let output := m.output
  let m := { m with output := {} }
  if output.fits text then .ok () { m with output := output.append text }
  else .error (.failed (.io output.refusal)) { m with output := output.tear text }

/-- A text that fits is written whole, and another one is torn. -/
theorem write_eq (text : String) (m : Machine) :
    write text m =
      if m.output.fits text then .ok () { m with output := m.output.append text }
      else .error (.failed (.io m.output.refusal)) { m with output := m.output.tear text } :=
  rfl

/-- Flushes the output. -/
def flush : Eval Unit := fun m =>
  match m.output.flush with
  | none => .ok () m
  | some fault => .error (.failed (.io fault)) m

/-- Writes to the reports. -/
def writeError (text : String) : Eval Unit := fun m =>
  let errors := m.errors
  let m := { m with errors := {} }
  if errors.fits text then .ok () { m with errors := errors.append text }
  else .error (.failed (.io errors.refusal)) { m with errors := errors.tear text }

/-- A line that fits is reported whole, and another one is torn. -/
theorem writeError_eq (text : String) (m : Machine) :
    writeError text m =
      if m.errors.fits text then .ok () { m with errors := m.errors.append text }
      else .error (.failed (.io m.errors.refusal)) { m with errors := m.errors.tear text } :=
  rfl

/-- A report on one line, painted red if asked for. -/
def reportText (color : Bool) (line : Nat) (message : String) : String :=
  let text := s!"Line {line}: {message}"
  (if color then "\x1B[31m" ++ text ++ "\x1B[0m" else text) ++ "\n"

/-- Reports a message about a line. -/
def report (line : Nat) (message : String) : Eval Unit := do
  writeError (reportText (← get).color line message)

/-- Takes a line off the input, up to its line feed; the end of the input is a fault. -/
def takeLine (line : Nat) : Eval (List UInt8) := fun m =>
  if m.input.isEmpty then .error (.failed (.running (.inputFailed line))) m
  else
    let (bytes, rest) := m.input.span (· != Token.code '\n')
    .ok bytes { m with input := rest.drop 1 }

/-- The text of a line of input, without its end. -/
def lineText (bytes : List UInt8) : Option String :=
  (Text.decode? bytes).map fun text =>
    String.ofList (Text.dropEndWhile (fun c => c == '\n' || c == '\r') text)

/-- Reads a line of input. A line that is not valid UTF-8 is a fault, and it is used up. -/
def readLine (line : Nat) : Eval String := do
  match lineText (← takeLine line) with
  | none => raise (.inputFailed line)
  | some text => return text

/-- A random natural number below a bound that is not zero. -/
def random (bound : Nat) : Eval Nat := modifyGet fun m =>
  (m.draws.next bound, { m with draws := m.draws.rest })

end Eval

/-- What nested evaluation is asked for; its type is that of the answer. -/
inductive Job : Type → Type where
  /-- The value of an expression. -/
  | evaluate (expr : Expr) : Job Value
  /-- How a statement ends. -/
  | execute (stmt : Stmt) : Job Flow

/-- Does nested evaluation. -/
abbrev JobRunner := {α : Type} → Job α → Eval α

end DecimalScript
