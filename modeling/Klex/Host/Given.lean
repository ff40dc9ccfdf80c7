import Klex.Evaluator

/-!
# Values from the host

A host describes values before the machine has given them an identity.

* **`Given`** — a description of a value.
* **`Given.realize`** — makes the value; every function and every list gets an identity of its own.
* **`Native.ofWord?`**, **`Native.nameFor`** — the natives that a host can pick, and the name that a
  picked one goes by.
-/

namespace Klex

namespace Native

/-- The natives that a host can pick for its scripts, with the words for them. -/
def words : List (String × Native) :=
  [("count", count), ("first", first), ("nothing", nothing), ("names", names),
   ("local", localNames), ("boundary", boundary), ("define", define), ("assign", assign),
   ("fetch", fetch), ("has", has), ("lookup", lookup), ("fail", fail), ("failtype", failType),
   ("apply", apply), ("attempt", attempt), ("emit", emit), ("script", script)]

/-- The native with a given word. -/
def ofWord? (word : String) : Option Native := words.lookup word

/-- The name of a native: the one it was given, unless that is empty; else its word; and a fixed text
if it is to have no name. -/
def nameFor (given : Option String) (word : String) (anonymous : Bool) : String :=
  match given.filter (!·.isEmpty) with
  | some name => name
  | none => if anonymous then "<native>" else word

end Native

/-- A value as the host describes it. -/
inductive Given where
  | null
  | bool (b : Bool)
  | int (n : Int)
  | float (x : Float)
  | text (s : String)
  /-- A function that does nothing. -/
  | function (params : List String)
  | native (name : String) (discards : Bool) (code : Native)
  | list (items : List Given)
  | absent
  /-- The value that the outermost scope binds to a name. -/
  | ref (name : String)

namespace Given

mutual

/-- The value that a description stands for. -/
def realize : Given → Exec Value
  | null => return .null
  | bool b => return .bool b
  | int n => return .int n
  | float x => return .float x
  | text s => return .text s
  | function params => return .closure (← Exec.freshId) params (.block none []) rootScope
  | native name discards code => return .native (← Exec.freshId) name discards code []
  | list items => do
    let values ← realizeAll items
    return .list (← Exec.freshId) values
  | absent => return .absent
  | ref name => do
    let h ← Exec.heap
    return (Bindings.get? (h.bindings rootScope) name).getD .null

/-- The values that a row of descriptions stands for. -/
def realizeAll : List Given → Exec (List Value)
  | [] => return []
  | g :: rest => do
    let v ← realize g
    let more ← realizeAll rest
    return v :: more

end

end Given

end Klex
