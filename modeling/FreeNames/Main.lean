import FreeNames.CommandLine.Scan
import FreeNames.Files.Listing

/-!
# The program

The command line over the listing of a file tree on standard input.  Settings, the working
directory and the encoding of the terminal come from the environment.  Tables and messages are written without
layout and colours.
-/

namespace FreeNames

/-- The lines of standard input. -/
partial def readLines (input : IO.FS.Stream) (lines : Array String) : IO (List String) := do
  let line ← input.getLine
  if line.isEmpty then return lines.toList
  readLines input (lines.push (String.ofList (line.toList.takeWhile (· ≠ '\n'))))

/-- The variables of the environment that are set, of these names. -/
def readVariables (names : List Text) : IO Environment :=
  names.foldlM (fun env name => do
    match ← IO.getEnv name.toStringLossy with
    | some value => return env.set name (Text.ofString value)
    | none => return env) .empty

/-- The way to the working directory of this process. -/
def readWorking : IO (List String) := do
  return (Path.ofString ((← IO.getEnv "PWD").getD "/")).components

/-- The variables that name the locale, the strongest first. -/
def localeVariables : List String := ["LC_ALL", "LC_CTYPE", "LANG"]

/-- The terminal of this process. -/
def readTerminal : IO Terminal := do
  let names ← localeVariables.mapM fun name => return Text.ofString ((← IO.getEnv name).getD "")
  return Terminal.ofLocaleNames names

/-- The lines that a console shows of something, without layout. -/
def Console.linesOf (console : Console) (item : Printable Table) : List Text :=
  match console.prepare item with
  | .markup t => [t.shown]
  | .value table => table.lines.map Text.shown

/-- Put something on a console that writes to a stream. -/
def Console.put (console : Console) (stream : IO.FS.Stream) (item : Printable Table) : IO Unit :=
  (console.linesOf item).forM fun line => stream.putStrLn line.toStringLossy

/-- The output of this process, which is written in UTF-8. -/
def Output.ofTerminal (terminal : Terminal) : Output :=
  .utf8 terminal fun item =>
    ((Console.new terminal).linesOf item).all fun line => !line.hasSurrogate

/-- Write what a run gives. -/
def Outcome.put (o : Outcome) (terminal : Terminal) : IO Unit := do
  let console := Console.new terminal
  let output ← IO.getStdout
  let errors ← IO.getStderr
  o.errors.forM (console.put errors)
  output.putStr o.written.toStringLossy
  o.console.forM (console.put output)

/-- Write what a run has given before it ended, and why it did. -/
def RunError.put (e : RunError) (terminal : Terminal) : IO Unit := do
  let output ← IO.getStdout
  match e with
  | .fault _ => pure ()
  | .unwritable written _ => output.putStr written.toStringLossy
  | .undrawable drawn _ => drawn.forM ((Console.new terminal).put output)
  IO.eprintln e.message.toStringLossy

/-- Carry out a command line; the result is the exit code. -/
def runProgram (words : List String) : IO UInt32 := do
  let env ← readVariables [formatVariable, arrowVariable, ignoreVariable, sortVariable]
  let terminal ← readTerminal
  match FileTree.ofLines (← readWorking) (← readLines (← IO.getStdin) #[]) with
  | .ok tree =>
    match runWords words env (.ofTerminal terminal) tree with
    | .ok outcome =>
      outcome.put terminal
      return outcome.exitCode.toUInt32
    | .error e =>
      e.put terminal
      return 1
  | .error e =>
    IO.eprintln e.message.toStringLossy
    return 1

end FreeNames

def main (words : List String) : IO UInt32 := FreeNames.runProgram words
