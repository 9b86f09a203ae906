import DecimalScript.CommandLine.Arguments
import DecimalScript.Eval.Perform
import DecimalScript.Listing.Program

/-!
# What the command line program answers

A file is run, listed, or refused for compiling. The answer is what the program writes
to its two sinks and its exit code: two for wrong usage, one for any failure, else
zero. Faults that a run reports do not count as failures.
-/

namespace DecimalScript

namespace CommandLine

/-- What a program leaves behind. -/
structure Answer where
  /-- The exit code. -/
  code : Nat := 0
  /-- The text written to the output. -/
  output : String := ""
  /-- The text written to the reports. -/
  errors : String := ""
  deriving DecidableEq, Repr

/-- What a program can see of its surroundings. -/
structure Surroundings where
  /-- The files. -/
  files : FileTree := {}
  /-- The input. -/
  input : List UInt8 := []
  /-- What is drawn at random. -/
  draws : Draws := .zeros

/-- The name and version. -/
def versionText : String := "myco 0.1.0\n"

/-- How the program is used. -/
def usageText : String :=
  "Usage: myco [OPTIONS] [FILE]\n\n" ++
  "Options:\n" ++
  "      --build               Compile FILE ahead of time instead of interpreting it\n" ++
  "      --output <FILE>       Output path for --build\n" ++
  "      --check               Tokenize and parse FILE, then print its syntax tree\n" ++
  "      --stats               Print loop statistics to stderr after the run\n" ++
  "      --max-iterations <N>  Iterations allowed per loop before it is stopped\n" ++
  "      --max-call-depth <N>  Maximum nesting of function calls\n" ++
  "      --no-color            Disable coloured error output\n" ++
  "  -h, --help                Print help\n" ++
  "  -V, --version             Print version\n"

/-- The wording of a stop. -/
def stopText : Stop → String
  | .failed failure => failure.message
  | .exhausted => "evaluation is nested too deeply"

/-- The answer after a stop. -/
def refusal (stop : Stop) : Answer := { code := 1, errors := stopText stop ++ "\n" }

/-- The answer to arguments that lead to no run. -/
def usageAnswer : UsageFault → Answer
  | .showHelp => { output := usageText }
  | .showVersion => { output := versionText }
  | _ => { code := 2, errors := "error: invalid arguments\n\n" ++ usageText }

/-- The directory that the imports of a file are relative to. -/
def sourceDirectory (file : Path) : Path :=
  if file.parent.text.isEmpty then ⟨"."⟩ else file.parent

/-- The machine that runs a file. -/
def machineFor (a : Arguments) (around : Surroundings) (baseDir : Path) : Machine := {
  baseDir
  maxCallDepth := a.maxCallDepth
  loops := { limits := { maxIterations := a.maxIterations } }
  color := !a.noColor
  files := around.files
  input := around.input
  draws := around.draws }

/-- The answer of a machine after a run. -/
def runAnswer (a : Arguments) (m : Machine) (failure : Option Stop) : Answer :=
  let stats := if a.stats then m.loops.statistics.text ++ "\n" else ""
  let last := match failure with
    | none => ""
    | some stop => stopText stop ++ "\n"
  { code := if failure.isSome then 1 else 0
    output := m.output.written
    errors := m.errors.written ++ stats ++ last }

/-- Runs a program. -/
def runProgram (a : Arguments) (around : Surroundings) (file : Path) (program : Block) : Answer :=
  match Eval.runProgram program (machineFor a around (sourceDirectory file)) with
  | .ok _ m => runAnswer a m none
  | .error stop m => runAnswer a m (some stop)

/-- Answers a request for a file. -/
def fileAnswer (a : Arguments) (around : Surroundings) (file : Path) : Answer :=
  if a.build then { code := 1, errors := "myco: code generation is not available in this build\n" }
  else
    match Block.ofFile around.files file with
    | .error stop => refusal stop
    | .ok program =>
      if a.check then { output := program.listingText ++ "\n" }
      else runProgram a around file program

end CommandLine

end DecimalScript
