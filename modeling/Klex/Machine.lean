import Klex.Numeric
import Klex.Report
import Klex.Scope

/-!
# The machine

The state in which scripts run, and the computations on it.

* **`Frame`** — a call in progress.
* **`Machine`** — scopes, effects, calls in progress, and what reports need besides.
* **`Exec`** — a computation on a machine.  When it stops early, what it did to the machine stays:
  bindings, effects, and the frames of the calls that were in progress.
* **`Host`** — how natives compute; **`Reentry`** is what they may ask of the evaluator.
-/

namespace Klex

/-- A call in progress. -/
structure Frame where
  /-- The name that the function was called by. -/
  name : String
  func : Value
  args : List Value
  /-- The offset of the call. -/
  site : Nat

/-- The state in which scripts run. -/
structure Machine where
  heap : Heap
  /-- The effects of the script so far, oldest first. -/
  effects : Array Effect
  /-- The calls in progress, outermost first. -/
  frames : List Frame
  /-- The offset of the node that the evaluator entered last. -/
  current : Option Nat
  /-- Every call so far, latest first. -/
  trace : List Frame
  /-- The next identity of a function or a list. -/
  nextId : Nat
  /-- What natives have added up. -/
  total : Numeric

/-- A machine without scopes. -/
def Machine.empty : Machine := ⟨.empty, #[], [], none, [], 0, .int 0⟩

/-- A computation on a machine. -/
abbrev Exec := EStateM Stop Machine

namespace Exec

/-- Stops with a failure. -/
def fail {α : Type} (cause : Cause) (pos : Option Nat) : Exec α := throw (.failure ⟨cause, pos⟩)

/-- Stops with a fault. -/
def fault {α : Type} (f : Fault) : Exec α := throw (.fault f)

/-- The result of something that can stop with a fault. -/
def ofFault {α : Type} : Except Fault α → Exec α
  | .ok a => pure a
  | .error f => fault f

/-- The result of something that can stop either way. -/
def ofStop {α : Type} : Except Stop α → Exec α
  | .ok a => pure a
  | .error s => throw s

/-- The scopes. -/
def heap : Exec Heap := return (← get).heap

/-- Changes the scopes. -/
def setHeap (h : Heap) : Exec Unit := modify fun m => { m with heap := h }

/-- Makes a scope. -/
def alloc (parent : Option ScopeId) (boundary : Bool) : Exec ScopeId :=
  modifyGet fun m =>
    let (s, h) := m.heap.alloc parent boundary
    (s, { m with heap := h })

/-- Binds several names in a scope. -/
def defineAll (s : ScopeId) (pairs : List (String × Value)) : Exec Unit :=
  modify fun m => { m with heap := m.heap.defineAll s pairs }

/-- Binds a name where it is bound already, or else in the given scope. -/
def assign (s : ScopeId) (name : String) (v : Value) : Exec Unit :=
  modify fun m => { m with heap := m.heap.assign s name v }

/-- A new identity. -/
def freshId : Exec Nat := modifyGet fun m => (m.nextId, { m with nextId := m.nextId + 1 })

/-- Records a message to the host. -/
def emit (topic message : String) : Exec Unit :=
  modify fun m => { m with effects := m.effects.push ⟨topic, message⟩ }

/-- Notes which node is being evaluated. -/
def enter (pos : Option Nat) : Exec Unit := modify fun m => { m with current := pos }

/-- Opens a call. -/
def push (frame : Frame) : Exec Unit :=
  modify fun m => { m with frames := m.frames ++ [frame], trace := frame :: m.trace }

/-- Closes the latest call. -/
def pop : Exec Unit := modify fun m => { m with frames := m.frames.dropLast }

/-- Forgets the effects, the calls in progress and the current node. -/
def clear : Exec Unit := modify fun m => { m with effects := #[], frames := [], current := none }

end Exec

/-! ### Natives -/

/-- What a native may ask of the evaluator. -/
structure Reentry where
  /-- Calls a value with arguments on behalf of a scope. -/
  call : Value → List Value → ScopeId → Exec Value
  /-- Runs a script in the same session. -/
  script : String → Exec (Report Value)

/-- What a native is called with. -/
structure Request where
  /-- The scope that the call stands in. -/
  scope : ScopeId
  args : List Value
  /-- The values that the native was made with. -/
  bound : List Value

/-- How natives compute. -/
abbrev Host := Reentry → Native → Request → Exec Value

end Klex
