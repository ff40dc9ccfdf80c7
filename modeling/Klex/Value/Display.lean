import Klex.Decimal.Notation
import Klex.Text.Quoted
import Klex.Value

/-!
# Text forms of values

* **`Value.display`** — a value as it would be written in source text, as far as it can be.
* **`Value.toText`** — the same, but a text stands for itself: what concatenation and printing use.
* **`Value.hostForm`** — a value in the host's spelling, as inside a list.
* **`displayFloat`** — a double in the language: whole numbers below `10 ^ 21` without a point.
-/

namespace Klex

/-- The magnitude from which on whole doubles are written with an exponent. -/
def wholeLimit : Nat := Decimal.pow10 21

/-- A double as the language writes it. -/
def displayFloat (x : Float) : String :=
  match Decimal.partsOf x with
  | .notANumber => "NaN"
  | .infinite negative => if negative then "-Infinity" else "Infinity"
  | .finite negative v =>
    match v.toNat? with
    | some n =>
      if n < wholeLimit then toString (if negative then -(n : Int) else n) else Decimal.write x
    | none => Decimal.write x

/-- One character inside double quotes. -/
def escapeInString (c : Char) : List Char :=
  if c = '\\' || c = '"' then ['\\', c] else [c]

/-- A text as a string literal. -/
def displayString (s : String) : String :=
  String.ofList ('"' :: s.toList.flatMap escapeInString ++ ['"'])

/-- The form of a function. -/
def displayFunction (params : List String) : String := "<function(" ++ ", ".intercalate params ++ ")>"

/-- The form of a native. -/
def displayNative (name : String) : String := "<native " ++ name ++ ">"

namespace Value

mutual

/-- A value in the host's spelling. -/
def hostForm : Value → String
  | null => "None"
  | bool b => if b then "True" else "False"
  | int n => toString n
  | float x => Decimal.write x
  | text s => Text.quoted s
  | closure _ params _ _ => displayFunction params
  | native _ name _ _ _ => displayNative name
  | list _ items => "[" ++ ", ".intercalate (hostForms items) ++ "]"
  | absent => "NO_RETURN"

/-- A row of values in the host's spelling. -/
def hostForms : List Value → List String
  | [] => []
  | v :: vs => hostForm v :: hostForms vs

end

/-- A value as it would be written in source text. -/
def display : Value → String
  | null => "null"
  | bool b => if b then "true" else "false"
  | int n => toString n
  | float x => displayFloat x
  | text s => displayString s
  | v => v.hostForm

/-- A value as text. -/
def toText : Value → String
  | text s => s
  | v => v.display

/-- The form of a function for the developer. -/
def describe? (v : Value) : Option String := if v.isCallable then some v.hostForm else none

end Value

end Klex
