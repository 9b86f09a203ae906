import DecimalScript.CommandLine.Program
import DecimalScript.Prompt.Completeness
import DecimalScript.Prompt.Texts

/-!
# The command line program

What a run may read is gathered beforehand: the named file, every module file that
imports can lead to from it, and the input if a source mentions it. The answer is then
computed and written. Without a file the program reads one entry after the other from
its input and keeps one machine for all of them.
-/

namespace DecimalScript

namespace CommandLine

/-- The text of a token that an import can name. -/
def importText? : TokenKind → Option String
  | .path text | .text text | .identifier text => some text
  | _ => none

/-- The texts that the imports among tokens name. -/
def importTexts (tokens : List Token) : List String :=
  (tokens.zip tokens.tail).filterMap fun (token, next) =>
    if token.isKeyword .useWord then importText? next.kind else none

/-- Whether tokens mention a name. -/
def mention (name : String) (tokens : List Token) : Bool :=
  tokens.any (·.kind == .identifier name)

/-- The tokens of a source; none if it has a fault. -/
def tokensOf (source : List UInt8) : List Token := (Token.ofSource source).toOption.getD []

/-- The names on the way to a path, from the root. -/
def wayTo (home : Place) (path : Path) : Place :=
  let parts := path.parts.filter (!Path.isVoid ·)
  if path.isAbsolute then parts else home ++ parts

/-- The directory where relative paths start. -/
def homePlace : IO Place := do
  return wayTo [] ⟨(← IO.currentDir).toString⟩

/-- The text of a place. -/
def placeText (place : Place) : String :=
  String.ofList ('/' :: ['/'].intercalate place)

/-- What is at a place of the file system, if anything can be read there. -/
def look (place : Place) : IO (Option FileEntry) := do
  let here := (← IO.currentDir) / placeText place
  if ← here.isDir then return some .directory
  try return some (.file (← IO.FS.readBinFile here).toList)
  catch _ => return none

/-- Adds what the file system has on a way, name by name, to a tree. -/
def addWay (tree : FileTree) (place : Place) : List (List Char) → IO FileTree
  | [] => return tree
  | part :: rest => do
    let place := if part == ['.', '.'] then place.dropLast else place ++ [part]
    match tree.entries.lookup place with
    | some _ => addWay tree place rest
    | none =>
      match ← look place with
      | none => return tree
      | some entry => addWay { tree with entries := (place, entry) :: tree.entries } place rest

/-- Gathers the files that paths and the imports in them lead to, besides those gathered before.
Tells also whether one of the sources mentions the input. -/
partial def gather (tree : FileTree) (asksInput : Bool) (seen : List Path) :
    List Path → IO (FileTree × Bool)
  | [] => return (tree, asksInput)
  | path :: rest => do
    if seen.contains path.canonical || FileTree.maxPath < path.text.utf8ByteSize then
      gather tree asksInput seen rest
    else
      let tree ← addWay tree [] (wayTo tree.home path)
      let tokens := tokensOf ((tree.read path).toOption.getD [])
      let imported := (importTexts tokens).map (Path.ofModule (sourceDirectory path))
      gather tree (asksInput || mention "input" tokens) (path.canonical :: seen) (imported ++ rest)

/-- A word of 64 bits whose bits are mixed by shifts and products. -/
def mixed (word : UInt64) : UInt64 :=
  let word := (word ^^^ (word >>> 30)) * 0xBF58476D1CE4E5B9
  let word := (word ^^^ (word >>> 27)) * 0x94D049BB133111EB
  word ^^^ (word >>> 31)

/-- Draws from mixed words, each a constant above the one before. -/
def drawsFrom (seed : UInt64) : Draws where
  draw before bound :=
    (mixed (seed + (before + 1).toUInt64 * 0x9E3779B97F4A7C15)).toNat % bound
  draw_lt _ _ h := Nat.mod_lt _ h

/-- Draws from a word that the system takes at random. -/
def freshDraws : IO Draws := do
  return drawsFrom ((← IO.getRandomBytes 8).toList.foldl
    (fun seed byte => seed * 256 + byte.toUInt64) 0)

/-- What a run of a file can see. -/
def surroundingsOf (file : Path) : IO Surroundings := do
  let (files, asksInput) ← gather { home := ← homePlace } false [] [file]
  let input ← if asksInput then (← IO.getStdin).readBinToEnd else pure .empty
  return { files, input := input.toList, draws := ← freshDraws }

/-- Writes what a program leaves behind. -/
def writeTexts (output errors : String) : IO Unit := do
  let out ← IO.getStdout
  out.putStr output
  out.flush
  (← IO.getStderr).putStr errors

/-- Reads an entry of one or more lines; nothing at the end of the input. -/
partial def readEntry (before : String) : IO (Option String) := do
  let out ← IO.getStdout
  out.putStr (if before.isEmpty then Prompt.left ++ Prompt.indicator else Prompt.multiline)
  out.flush
  let line ← (← IO.getStdin).getLine
  if line.isEmpty then return if before.isEmpty then none else some before
  let entry := before ++ line
  if Prompt.isComplete entry then return some entry else readEntry entry

/-- Runs entries one after the other and ends with the machine that the last one leaves. -/
partial def converse (m : Machine) : IO Machine := do
  match ← readEntry "" with
  | none => return m
  | some entry =>
    let source := Text.bytesOf entry
    let imported := (importTexts (tokensOf source)).map (Path.ofModule m.baseDir)
    let (files, _) ← gather { home := ← homePlace } false [] imported
    let (failure, m) := match Eval.runSource source { m with files } with
      | .ok _ m => ("", m)
      | .error stop m => (stopText stop ++ "\n", m)
    writeTexts m.output.written (m.errors.written ++ failure)
    converse { m with output := {}, errors := {} }

/-- Runs entries until the input ends. -/
def runSession (a : Arguments) : IO UInt32 := do
  let m ← converse (machineFor a { draws := ← freshDraws } ⟨"."⟩)
  if a.stats then writeTexts "" (m.loops.statistics.text ++ "\n")
  return 0

/-- Writes an answer and gives its exit code. -/
def conclude (answer : Answer) : IO UInt32 := do
  writeTexts answer.output answer.errors
  return answer.code.toUInt32

end CommandLine

end DecimalScript

open DecimalScript.CommandLine in
/-- Does what the arguments of the command line ask for. -/
def main (texts : List String) : IO UInt32 := do
  match parse texts with
  | .error fault => conclude (usageAnswer fault)
  | .ok a =>
    match a.file with
    | none => runSession a
    | some file => conclude (fileAnswer a (← surroundingsOf ⟨file⟩) ⟨file⟩)
