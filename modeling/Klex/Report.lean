import Klex.Failure
import Klex.Text.Lines

/-!
# Reports

What became of a script, and how a problem in it is shown.

* **`Effect`** — a message to the host, under a topic.
* **`Place`**, **`placeOf`** — line and column of an offset; only line feeds count as line ends here.
* **`excerpt`** — the lines around a place, with a caret under the column.
* **`Problem`** — a failure with its message and place.
* **`Report`** — a value or a problem, with the effects of the script.
* **`formatProblem`** — a problem as text, with its place and an excerpt.
-/

namespace Klex

/-- A message to the host. -/
structure Effect where
  topic : String
  message : String
  deriving DecidableEq, Repr

/-! ### Places -/

/-- A line and a column, both counted from one. -/
structure Place where
  line : Nat
  col : Nat
  deriving DecidableEq, Repr

/-- The place just after some text. -/
def placeAfter (before : List Char) : Place where
  line := before.count '\n' + 1
  col := (before.reverse.takeWhile (· != '\n')).length + 1

/-- The place of an offset.  Offsets outside the text count as its nearer end. -/
def placeOf (source : String) (pos : Int) : Place :=
  placeAfter (source.toList.take pos.toNat)

/-! ### Excerpts -/

/-- A number with blanks in front, `width` characters wide. -/
def padNumber (width n : Nat) : String :=
  let digits := toString n
  String.ofList (List.replicate (width - digits.length) ' ') ++ digits

/-- One line of an excerpt, with its number and perhaps a mark. -/
def excerptLine (width : Nat) (marked : Bool) (number : Nat) (line : List Char) : String :=
  (if marked then ">" else " ") ++ " " ++ padNumber width number ++ " | " ++ String.ofList line

/-- The line with the caret, under column `col`. -/
def caretLine (width : Nat) (col : Int) : String :=
  "  " ++ String.ofList (List.replicate width ' ') ++ " | "
    ++ String.ofList (List.replicate (col - 1).toNat ' ') ++ "^"

/-- The lines of a text from `line - radius` to `line + radius`, as far as there are any, with a mark
at `line` and a caret under `col`.  Nothing if the text has no such line. -/
def excerpt (source : String) (line : Int) (col : Option Int) (radius : Int) : String :=
  let lines := Text.splitLines source.toList
  if line < 1 || (lines.length : Int) < line then ""
  else
    let first := (max 1 (line - radius)).toNat
    let last := (min (lines.length : Int) (line + radius)).toNat
    let width := (toString last).length
    let shown := (lines.take last).zipIdx 1 |>.drop (first - 1)
    "\n".intercalate <| shown.flatMap fun (text, number) =>
      let marked := (number : Int) == line
      excerptLine width marked number text :: match marked, col with
        | true, some col => [caretLine width col]
        | _, _ => []

/-- How many lines an excerpt shows on either side. -/
def excerptRadius : Int := 2

/-! ### Problems -/

/-- A line and a column as a host may give them: each may be missing. -/
structure Location where
  line : Option Int
  col : Option Int
  deriving DecidableEq, Repr

/-- A number that may be missing. -/
def showNumber : Option Int → String
  | some n => toString n
  | none => "None"

/-- A problem as text.  Its location stands in front and an excerpt of the source below, where there
are any. -/
def formatProblem (message : String) (location : Option Location) (source : String) : String :=
  let message := if message.isEmpty then "Unknown error" else message
  match location with
  | none => message
  | some l =>
    let headline := "Error on line " ++ showNumber l.line ++ ", col " ++ showNumber l.col ++ ": "
      ++ message
    let context := match l.line with
      | some line => excerpt source line l.col excerptRadius
      | none => ""
    if context.isEmpty then headline else headline ++ "\n" ++ context

/-- A failure as it is reported. -/
structure Problem where
  failure : Failure
  /-- The full message, perhaps with a trace of the calls in progress. -/
  message : String
  /-- The offset that the report points to. -/
  pos : Option Nat
  source : String

/-- The place that a problem points to. -/
def Problem.place? (p : Problem) : Option Place := p.pos.map fun pos => placeOf p.source pos

/-- A problem as text. -/
def Problem.format (p : Problem) : String :=
  let location := p.place?.map fun place => Location.mk (some place.line) (some place.col)
  formatProblem p.message location p.source

/-- What became of a script. -/
structure Report (α : Type) where
  outcome : Except Problem α
  effects : List Effect

end Klex
