import Klex.Failure
import Klex.Scope
import Klex.Value.Display

/-!
# Keys of any type

Natives reach scopes with keys that need not be names.

* **`Heap.defineKey`**, **`Heap.assignKey`** — binding refuses a key that is no text.
* **`Heap.fetchKey`**, **`Heap.hasKey`**, **`Heap.lookupKey`** — a key that is no text is simply not
  bound; only a list cannot even be looked for.
* **`Heap.item`** — the value of a name that has to be bound, as a fault otherwise.
-/

namespace Klex

namespace Value

/-- The type of a value in the host's terms. -/
def hostTypeName : Value → String
  | null => "NoneType"
  | bool _ => "bool"
  | int _ => "int"
  | float _ => "float"
  | text _ => "str"
  | v => v.typeName

/-- The name that a key is. -/
def asName : Value → Except Fault String
  | text s => .ok s
  | v => .error (.badKey v.hostTypeName)

/-- What a look-up of a key can come to: a name to look for, a literal that no scope binds, or the
fault that the key cannot be looked for at all. -/
def asKey : Value → Except Fault (Except Literal String)
  | text s => .ok (.ok s)
  | null => .ok (.error .null)
  | bool b => .ok (.error (.bool b))
  | int n => .ok (.error (.int n))
  | float x => .ok (.error (.float x))
  | list _ _ => .error .unsearchableKey
  | v => .ok (.error (.text v.hostForm))

end Value

namespace Heap

/-- Binds a key in a scope. -/
def defineKey (h : Heap) (s : ScopeId) (key v : Value) : Except Fault Heap := do
  return h.define s (← key.asName) v

/-- Binds a key where it is bound already, or else in the given scope. -/
def assignKey (h : Heap) (s : ScopeId) (key v : Value) : Except Fault Heap := do
  let _ ← key.asKey
  return h.assign s (← key.asName) v

/-- The value of a key, or a default. -/
def fetchKey (h : Heap) (s : ScopeId) (key default : Value) : Except Fault Value := do
  match ← key.asKey with
  | .ok name => return (h.lookup? s name).getD default
  | .error _ => return default

/-- Whether a key is bound. -/
def hasKey (h : Heap) (s : ScopeId) (key : Value) : Bool :=
  match key with
  | .text name => (h.owner? s name).isSome
  | _ => false

/-- The value of a name that has to be bound. -/
def lookup (h : Heap) (s : ScopeId) (name : String) (pos : Option Nat) : Except Failure Value :=
  match h.lookup? s name with
  | some v => .ok v
  | none => .error ⟨.unbound name, pos⟩

/-- The value of a key that has to be bound. -/
def lookupKey (h : Heap) (s : ScopeId) (key : Value) (pos : Option Nat) : Except Stop Value :=
  match key.asKey with
  | .error fault => .error (.fault fault)
  | .ok (.error literal) => .error (.failure ⟨.unboundKey literal, pos⟩)
  | .ok (.ok name) =>
    match h.lookup s name pos with
    | .ok v => .ok v
    | .error failure => .error (.failure failure)

/-- The value of a name; a fault if it is not bound. -/
def item (h : Heap) (s : ScopeId) (name : String) : Except Fault Value :=
  match h.lookup? s name with
  | some v => .ok v
  | none => .error (.missingKey name)

end Heap

end Klex
