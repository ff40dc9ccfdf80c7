import Klex.Shell

/-!
# The command line

The outer layer of the shell: it reads files and lines, and writes what the shell says.
-/

open Klex

namespace Klex.Shell

/-- Writes what the shell says. -/
def write (o : Output) : IO Unit := do
  (← IO.getStdout).putStr o.stdout
  (← IO.getStdout).flush
  (← IO.getStderr).putStr o.stderr

/-- The exit status of a run. -/
def finish : Ending → IO UInt32
  | .exit status => return status.toUInt32
  | .fault f => do
    (← IO.getStderr).putStrLn (f.message?.getD "stack exhausted")
    return 1

/-- Answers lines until the user or the input ends the conversation. -/
partial def converseWith (input : IO.FS.Stream) (m : Machine) : IO UInt32 := do
  write ⟨prompt, ""⟩
  let line ← input.getLine
  if line.isEmpty then
    write ⟨farewell, ""⟩
    return 0
  let (output, turn) := answer m line
  write output
  match turn with
  | .goOn m => converseWith input m
  | .stop => return 0
  | .fault f => finish (.fault f)

/-- Runs a command on a file. -/
def onFile (path : String) (command : String → Output × Ending) : IO UInt32 := do
  let contents ← try some <$> IO.FS.readFile path catch _ => pure none
  let (output, ending) := match contents with
    | some contents => command contents
    | none => missingFile path
  write output
  finish ending

end Klex.Shell

/-- Runs a script file, shows one in colour, or talks to the user. -/
def main (args : List String) : IO UInt32 := do
  match Shell.Command.ofArgs args with
  | .highlight path => Shell.onFile path Shell.highlightSource
  | .run path => Shell.onFile path Shell.runSource
  | .converse =>
    Shell.write ⟨Shell.greeting, ""⟩
    Shell.converseWith (← IO.getStdin) Shell.fresh
