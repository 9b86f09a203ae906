/-!
# Arguments of the command line

Arguments are read from left to right. An option waits for its value, and what waits is
settled when the next argument begins something new or the arguments end; a fault of an
unknown argument comes before that of a waiting value. After two dashes everything is a
file. Conflicts and requirements between arguments are looked at last.
-/

namespace DecimalScript

namespace CommandLine

/-- What the arguments ask for. -/
structure Arguments where
  /-- The source file. -/
  file : Option String := none
  /-- Whether to compile the file. -/
  build : Bool := false
  /-- Where to write the compiled file. -/
  output : Option String := none
  /-- Whether to list the syntax tree only. -/
  check : Bool := false
  /-- Whether to print loop statistics. -/
  stats : Bool := false
  /-- The turns one loop may take. -/
  maxIterations : Nat := 1000000
  /-- The calls that may be in progress. -/
  maxCallDepth : Nat := 200
  /-- Whether reports are not painted. -/
  noColor : Bool := false
  deriving DecidableEq, Repr

/-- Why arguments do not lead to a run. -/
inductive UsageFault where
  /-- An unknown flag, or a second file. -/
  | unknownArgument
  /-- A value that is no number in range. -/
  | badValue
  /-- A value that is missing, or an empty path. -/
  | missingValue
  /-- Arguments that exclude each other, or one that is given twice. -/
  | conflict
  /-- An argument that needs another one. -/
  | missingArgument
  /-- A value for a flag that takes none. -/
  | surplusValue
  /-- The help text was asked for. -/
  | showHelp
  /-- The version was asked for. -/
  | showVersion
  deriving DecidableEq, Repr

/-- Arguments without a value. -/
inductive Flag where
  | build | check | stats | noColor | help | version
  deriving DecidableEq, Repr

/-- Arguments with a value. -/
inductive Slot where
  | file | output | maxIterations | maxCallDepth
  deriving DecidableEq, Repr

/-- The flags by their long names. -/
def longFlags : List (String × Flag) := [
  ("build", .build), ("check", .check), ("stats", .stats), ("no-color", .noColor),
  ("help", .help), ("version", .version)]

/-- The options by their long names. -/
def longOptions : List (String × Slot) := [
  ("output", .output), ("max-iterations", .maxIterations), ("max-call-depth", .maxCallDepth)]

/-- The state of reading arguments. -/
structure Reading where
  /-- What was settled. -/
  arguments : Arguments := {}
  /-- The flags and slots that were given. -/
  flags : List Flag := []
  /-- The slots that were given. -/
  slots : List Slot := []
  /-- The slot that waits to be settled, with its value if there is one. -/
  waiting : Option (Slot × Option String) := none
  /-- Whether two dashes were passed. -/
  literal : Bool := false
  /-- Whether a file was passed. -/
  hasFile : Bool := false

/-- A natural number that fits 64 bits: digits after an optional plus sign. -/
def number? (text : String) : Option Nat :=
  let digits := match text.toList with
    | '+' :: rest => rest
    | chars => chars
  if digits.isEmpty || !digits.all (fun c => '0' ≤ c && c ≤ '9') then none
  else
    let value := digits.foldl (fun value c => value * 10 + (c.toNat - '0'.toNat)) 0
    if value < UInt64.size then some value else none

/-- Stores the value of a slot. -/
def store (arguments : Arguments) (slot : Slot) (value : String) :
    Except UsageFault Arguments :=
  match slot with
  | .file =>
    if value.isEmpty then .error .missingValue else .ok { arguments with file := some value }
  | .output =>
    if value.isEmpty then .error .missingValue else .ok { arguments with output := some value }
  | .maxIterations =>
    match number? value with
    | some n => .ok { arguments with maxIterations := n }
    | none => .error .badValue
  | .maxCallDepth =>
    match number? value with
    | some n => .ok { arguments with maxCallDepth := n }
    | none => .error .badValue

/-- Settles a slot with its value: it needs one, and may be given once. -/
def settleSlot (r : Reading) (slot : Slot) (value : Option String) :
    Except UsageFault Reading := do
  match value with
  | none => throw .missingValue
  | some value =>
    if r.slots.contains slot then throw .conflict
    return { r with
      arguments := ← store r.arguments slot value
      slots := slot :: r.slots
      waiting := none }

/-- Settles the slot that waits, if one does. -/
def settle (r : Reading) : Except UsageFault Reading :=
  match r.waiting with
  | none => .ok r
  | some (slot, value) => settleSlot r slot value

/-- Sets a flag. -/
def setFlag (arguments : Arguments) : Flag → Arguments
  | .build => { arguments with build := true }
  | .check => { arguments with check := true }
  | .stats => { arguments with stats := true }
  | .noColor => { arguments with noColor := true }
  | .help | .version => arguments

/-- Reads a flag. -/
def readFlag (r : Reading) (flag : Flag) : Except UsageFault Reading := do
  let r ← settle r
  match flag with
  | .help => throw .showHelp
  | .version => throw .showVersion
  | flag =>
    if r.flags.contains flag then throw .conflict
    return { r with arguments := setFlag r.arguments flag, flags := flag :: r.flags }

/-- Reads an argument with a long name and the value after its equals sign, if it has one. -/
def readLong (r : Reading) (name : String) (value : Option String) :
    Except UsageFault Reading := do
  match longOptions.lookup name, longFlags.lookup name with
  | some slot, _ =>
    let r ← settle r
    match value with
    | some value => settleSlot r slot (some value)
    | none => return { r with waiting := some (slot, none) }
  | none, some flag =>
    if value.isSome then throw .surplusValue else readFlag r flag
  | none, none => throw .unknownArgument

/-- Reads the flags of an argument of single letters; the first of them decides, since each
known letter ends the reading. -/
def readShort (r : Reading) (letter : Char) : Except UsageFault Reading :=
  if letter = 'h' then readFlag r .help
  else if letter = 'V' then readFlag r .version
  else .error .unknownArgument

/-- Reads an argument that is no flag and no value of an option. -/
def readFile (r : Reading) (text : String) : Except UsageFault Reading := do
  if r.hasFile then throw .unknownArgument
  let r ← settle r
  return { r with waiting := some (.file, some text), hasFile := true }

/-- Reads an argument that is a value: of the option that waits for one, or else the file. -/
def readValue (r : Reading) (text : String) : Except UsageFault Reading :=
  match r.waiting with
  | some (slot, none) => .ok { r with waiting := some (slot, some text) }
  | _ => readFile r text

/-- The name and the value of a long argument after its dashes. -/
def cutAtEqual (text : List Char) : String × Option String :=
  let name := text.takeWhile (· != '=')
  match text.dropWhile (· != '=') with
  | [] => (String.ofList name, none)
  | _ :: value => (String.ofList name, some (String.ofList value))

/-- Reads one argument. -/
def readArgument (r : Reading) (text : String) : Except UsageFault Reading :=
  if r.literal then readFile r text
  else
    match text.toList with
    | ['-', '-'] => .ok { r with literal := true }
    | '-' :: '-' :: rest =>
      let (name, value) := cutAtEqual rest
      readLong r name value
    | '-' :: letter :: _ => readShort r letter
    | _ => readValue r text

/-- Checks what the arguments ask for as a whole: compiling excludes listing, and a place for the
compiled file needs compiling, unless listing excludes that. -/
def checkTogether (a : Arguments) : Except UsageFault Arguments :=
  if a.build && a.check then .error .conflict
  else if a.output.isSome && !a.build && !a.check then .error .missingArgument
  else .ok a

/-- Reads all arguments. -/
def parse (texts : List String) : Except UsageFault Arguments := do
  let r ← texts.foldlM readArgument {}
  checkTogether (← settle r).arguments

end CommandLine

end DecimalScript
