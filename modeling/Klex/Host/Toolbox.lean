import Klex.Evaluator
import Klex.Text.Order

/-!
# The toolbox

How every native computes.

* **`Numeric.add`** — addition that stays with whole numbers as long as it can.
* **`Toolbox.onScopes`**, **`Toolbox.onCalls`**, **`Toolbox.onValues`** — the natives by what they
  work on.
* **`toolbox`** — all of them, as a host.

A missing argument counts as null.
-/

namespace Klex

namespace Numeric

/-- A number as a double. -/
def toFloat : Numeric → Except Fault Float
  | int n => floatOfInt n
  | float x => .ok x

/-- The sum of two numbers: whole if both are, else a double. -/
def add : Numeric → Numeric → Except Fault Numeric
  | int m, int n => .ok (int (m + n))
  | a, b => do
    let x ← a.toFloat
    let y ← b.toFloat
    return float (x + y)

/-- The number that a value is.  A truth value is none. -/
def ofValue? : Value → Option Numeric
  | .int n => some (int n)
  | .float x => some (float x)
  | _ => none

/-- A number as a value. -/
def toValue : Numeric → Value
  | int n => .int n
  | float x => .float x

end Numeric

/-- An argument by its index. -/
def Request.arg (r : Request) (i : Nat) : Value := r.args[i]?.getD .null

namespace Toolbox

/-- Changes the scopes by something that can stop with a fault. -/
def updateHeap (f : Heap → Except Fault Heap) : Exec Value := do
  Exec.setHeap (← Exec.ofFault (f (← Exec.heap)))
  return .null

/-- Adds numbers to the running total, one after the other, and gives the total. -/
def addAll : List Numeric → Exec Value
  | [] => return (← get).total.toValue
  | n :: rest => do
    let total ← Exec.ofFault ((← get).total.add n)
    modify fun m => { m with total := total }
    addAll rest

/-- The visible names in ascending order. -/
def sortedNames (h : Heap) (s : ScopeId) : List String :=
  Text.sortOn id (h.visibleNames s)

/-- What `print` shows of its argument. -/
def printedText : Value → String
  | .null => ""
  | v => v.toText

/-- Natives that look at scopes or change them. -/
def onScopes (code : Native) (r : Request) : Exec Value := do
  let h ← Exec.heap
  match code with
  | .names => return .text (",".intercalate (h.visibleNames r.scope))
  | .localNames => return .text (",".intercalate (Bindings.names (h.bindings r.scope)))
  | .boundary => return .bool ((h.scopes[r.scope]?.map Scope.boundary).getD false)
  | .define => updateHeap fun h => h.defineKey r.scope (r.arg 0) (r.arg 1)
  | .assign => updateHeap fun h => h.assignKey r.scope (r.arg 0) (r.arg 1)
  | .fetch => Exec.ofFault (h.fetchKey r.scope (r.arg 0) (r.arg 1))
  | .has => return .bool (h.hasKey r.scope (r.arg 0))
  | .lookup => Exec.ofStop (h.lookupKey r.scope (r.arg 0) none)
  | _ => return .absent

/-- The result of a script that another script runs: its value, or the message of its problem. -/
def scriptValue (report : Report Value) : Value :=
  match report.outcome with
  | .ok v => v
  | .error p => .text p.message

/-- Natives that go back to the evaluator or stop it. -/
def onCalls (reentry : Reentry) (code : Native) (r : Request) : Exec Value :=
  let applied := reentry.call (r.arg 0) (r.args.drop 1) r.scope
  match code with
  | .apply => applied
  | .attempt => tryCatch applied fun
    | .failure f => return .text f.describe
    | .fault f => Exec.fault f
  | .script => return scriptValue (← reentry.script (r.arg 0).toText)
  | .fail => Exec.fail (.raised (r.arg 0).toText) none
  | .failType => Exec.fail (.raisedType (r.arg 0).toText) (some 1)
  | _ => return .absent

/-- Natives that only compute or send messages. -/
def onValues (code : Native) (r : Request) : Exec Value := do
  match code with
  | .print =>
    Exec.emit "stdout" (printedText (r.arg 0))
    return .absent
  | .printNames =>
    let h ← Exec.heap
    Exec.emit "debug" (", ".intercalate (sortedNames h r.scope))
    return .absent
  | .emit =>
    Exec.emit (r.arg 0).toText (r.arg 1).toText
    return .null
  | .count => return .int r.args.length
  | .first => return r.arg 0
  | .constant => return r.bound.head?.getD .null
  | .add => addAll (r.args.filterMap Numeric.ofValue?)
  | _ => return .absent

end Toolbox

/-- How every native computes. -/
def toolbox : Host := fun reentry code r =>
  match code with
  | .names | .localNames | .boundary | .define | .assign | .fetch | .has | .lookup =>
    Toolbox.onScopes code r
  | .apply | .attempt | .script | .fail | .failType => Toolbox.onCalls reentry code r
  | .print | .printNames | .emit | .count | .first | .nothing | .constant | .add =>
    Toolbox.onValues code r

end Klex
