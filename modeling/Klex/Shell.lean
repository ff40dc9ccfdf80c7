import Klex.Highlight
import Klex.Session
import Klex.Text.Blank
import Klex.Text.Lines

/-!
# The shell

What the command line does, as a function of its arguments, the files it reads and the lines typed.

* **`Shell.Command`** — show a file in colour, run a file, or talk to the user.
* **`Shell.Output`** — what is written to the two output streams, in order on each.
* **`Shell.runSource`**, **`Shell.highlightSource`** — the commands on a file.
* **`Shell.answer`** — one typed line in a conversation.
* **`Shell.execute`** — a whole run, with its exit status.
-/

namespace Klex.Shell

/-- What the command line asks for. -/
inductive Command where
  | highlight (path : String)
  | run (path : String)
  | converse
  deriving DecidableEq, Repr

/-- The command that arguments stand for.  Whatever is not understood starts a conversation. -/
def Command.ofArgs : List String → Command
  | ["--highlight", path] => .highlight path
  | path :: _ => if path.startsWith "-" then .converse else .run path
  | [] => .converse

/-- What is written to the two output streams. -/
structure Output where
  stdout : String
  stderr : String
  deriving DecidableEq, Repr

namespace Output

/-- Nothing. -/
def empty : Output := ⟨"", ""⟩

/-- A line on standard output. -/
def line (s : String) : Output := ⟨s ++ "\n", ""⟩

/-- A line on standard error. -/
def errorLine (s : String) : Output := ⟨"", s ++ "\n"⟩

instance : Append Output where
  append a b := ⟨a.stdout ++ b.stdout, a.stderr ++ b.stderr⟩

/-- Several outputs, one after the other. -/
def concat (outputs : List Output) : Output := outputs.foldl (· ++ ·) empty

end Output

/-- An effect as output.  Effects under other topics are not shown. -/
def showEffect (e : Effect) : Output :=
  if e.topic = "stdout" then .line e.message
  else if e.topic = "debug" then .errorLine e.message
  else .empty

/-- The value of a script as output.  Null is not shown. -/
def showValue : Value → Output
  | .null => .empty
  | v => .line v.display

/-- A report as output: its effects, then its value or its problem. -/
def showReport (r : Report Value) : Output :=
  .concat (r.effects.map showEffect) ++ match r.outcome with
    | .ok v => showValue v
    | .error p => .errorLine p.format

/-- How a run of the shell ends. -/
inductive Ending where
  | exit (status : Nat)
  /-- A fault ends the run. -/
  | fault (f : Fault)
  deriving DecidableEq, Repr

/-- The exit status of a report. -/
def statusOf (r : Report Value) : Nat :=
  match r.outcome with
  | .ok _ => 0
  | .error _ => 1

/-- A file's text as it is read: all line ends become line feeds. -/
def readText (contents : String) : String := String.ofList (Text.plainLineEnds contents.toList)

/-- Shows a file in colour. -/
def highlightSource (contents : String) : Output × Ending :=
  (.line (highlightHtml (readText contents)), .exit 0)

/-- Runs a file. -/
def runSource (contents : String) : Output × Ending :=
  match (runOnce true [] [] (readText contents)).1 with
  | .ok r => (showReport r, .exit (statusOf r))
  | .error (.failure f) => (.errorLine f.describe, .exit 1)
  | .error (.fault f) => (.empty, .fault f)

/-- What is said about a missing file. -/
def missingFile (path : String) : Output × Ending :=
  (.errorLine ("Error: file not found: " ++ path), .exit 1)

/-! ### Conversations -/

/-- What a conversation starts with. -/
def greeting : String := "Klex REPL v0.1\nType 'exit' or press Ctrl+D to quit.\n"

/-- What invites the user to type. -/
def prompt : String := ">> "

/-- What a conversation ends with when there are no more lines. -/
def farewell : String := "\nExiting.\n"

/-- How a conversation goes on after a line. -/
inductive Turn where
  | goOn (m : Machine)
  | stop
  | fault (f : Fault)

/-- The machine that a conversation starts with. -/
def fresh : Machine := Session.start true [] []

/-- The answer to a typed line. -/
def answer (m : Machine) (line : String) : Output × Turn :=
  let source := String.ofList (Text.trim line.toList)
  if source.isEmpty then (.empty, .goOn m)
  else if source = "exit" then (.empty, .stop)
  else
    match (Session.script source).run m with
    | .ok r m => (showReport r, .goOn m)
    | .error (.failure f) m => (.errorLine f.describe, .goOn m)
    | .error (.fault f) _ => (.empty, .fault f)

/-- The rest of a conversation. -/
def converse : Machine → List String → Output × Ending
  | _, [] => (⟨prompt ++ farewell, ""⟩, .exit 0)
  | m, line :: rest =>
    let (output, turn) := answer m line
    let output := ⟨prompt, ""⟩ ++ output
    match turn with
    | .goOn m =>
      let (more, ending) := converse m rest
      (output ++ more, ending)
    | .stop => (output, .exit 0)
    | .fault f => (output, .fault f)

/-- The lines typed.  Only line feeds end a line, and the last line may lack one. -/
def typedLines : List Char → List (List Char)
  | [] => []
  | '\n' :: rest => [] :: typedLines rest
  | c :: rest => Text.extendLine c (typedLines rest)

/-! ### The whole run -/

/-- A command, given the files that exist and what the user types. -/
def execute (args : List String) (file? : String → Option String) (typed : String) :
    Output × Ending :=
  match Command.ofArgs args with
  | .highlight path =>
    match file? path with
    | some contents => highlightSource contents
    | none => missingFile path
  | .run path =>
    match file? path with
    | some contents => runSource contents
    | none => missingFile path
  | .converse =>
    let (output, ending) := converse fresh ((typedLines typed.toList).map String.ofList)
    (⟨greeting, ""⟩ ++ output, ending)

end Klex.Shell
