import Klex.Literal
import Klex.Tree

/-!
# Values

What expressions come to while a script runs.

* **`Native`** — the computations that the host supplies, by name.
* **`Value`** — values of the language, together with the two kinds of things that only a host can
  bring in: lists, and the mark for the absence of a value.
* **`Value.isCallable`**, **`Value.isTruthy`**, **`Value.typeName`** — the basic distinctions.

Functions and lists have an identity: two functions are equal only if they are one and the same.
-/

namespace Klex

/-- A place in the heap of scopes. -/
abbrev ScopeId := Nat

/-- A computation that the host supplies. -/
inductive Native where
  /-- Writes its argument to the standard topic. -/
  | print
  /-- Writes the visible names to the debugging topic. -/
  | printNames
  /-- The number of arguments. -/
  | count
  /-- The first argument. -/
  | first
  /-- No value. -/
  | nothing
  /-- The names visible from the calling scope. -/
  | names
  /-- The names bound in the calling scope itself. -/
  | localNames
  /-- Whether the calling scope belongs to a function call. -/
  | boundary
  /-- Binds a name in the calling scope. -/
  | define
  /-- Binds a name where it is bound already, or else in the calling scope. -/
  | assign
  /-- The value of a name, or a default. -/
  | fetch
  /-- Whether a name is visible. -/
  | has
  /-- The value of a name, which has to be visible. -/
  | lookup
  /-- Fails with a message. -/
  | fail
  /-- Fails with a message about types. -/
  | failType
  /-- Calls its first argument with the rest. -/
  | apply
  /-- Calls like `apply`, and turns a failure into its text. -/
  | attempt
  /-- Sends a message under a topic. -/
  | emit
  /-- Runs a script in the same session. -/
  | script
  /-- The value that the native was made with. -/
  | constant
  /-- Adds its arguments to a running total. -/
  | add
  deriving DecidableEq, Repr

/-- A value. -/
inductive Value where
  | null
  | bool (b : Bool)
  | int (n : Int)
  | float (x : Float)
  | text (s : String)
  /-- A function of the language, with the scope in which its literal was evaluated. -/
  | closure (id : Nat) (params : List String) (body : Stmt) (scope : ScopeId)
  /-- A function of the host.  What it computes may be discarded, and it may come with values. -/
  | native (id : Nat) (name : String) (discards : Bool) (code : Native) (bound : List Value)
  /-- A list of the host's. -/
  | list (id : Nat) (items : List Value)
  /-- The absence of a value. -/
  | absent

namespace Value

/-- The value of a literal. -/
def ofLiteral : Literal → Value
  | .null => null
  | .bool b => bool b
  | .int n => int n
  | .float x => float x
  | .text s => text s

/-- The identity of a function. -/
def callableId? : Value → Option Nat
  | closure id _ _ _ | native id _ _ _ _ => some id
  | _ => none

/-- Whether a value can be called. -/
def isCallable (v : Value) : Bool := v.callableId?.isSome

/-- Whether a value is a number. -/
def isNumber : Value → Bool
  | int _ | float _ => true
  | _ => false

/-- Whether a value is a text. -/
def isText : Value → Bool
  | text _ => true
  | _ => false

/-- Whether a value counts as true.  Only null and false do not. -/
def isTruthy : Value → Bool
  | null | bool false => false
  | _ => true

/-- The type of a value, as messages name it. -/
def typeName : Value → String
  | null => "null"
  | bool _ => "boolean"
  | int _ | float _ => "number"
  | text _ => "string"
  | closure _ _ _ _ | native _ _ _ _ _ => "function"
  | list _ _ => "list"
  | absent => "_NoReturn"

/-- A value, or nothing where it is the mark of absence. -/
def present? : Value → Option Value
  | absent => none
  | v => some v

/-- A value, with null for the mark of absence. -/
def orNull (v : Value) : Value := v.present?.getD null

end Value

end Klex
