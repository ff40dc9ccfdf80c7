import Klex.Numeric
import Klex.Value

/-!
# Equality of values

* **`Value.same`** — the equality of the language: functions by identity, everything else by type
  and content.  A whole number and a double are never the same.
* **`Value.alike`** — equality across types, by which lists compare their items: numbers and truth
  values by the number they count as.

A list is equal to itself whatever it holds.
-/

namespace Klex.Value

/-- The number that a value counts as. -/
def toNumeric? : Value → Option Numeric
  | bool b => some (.ofBool b)
  | int n => some (.int n)
  | float x => some (.float x)
  | _ => none

mutual

/-- Equality across types. -/
def alike : Value → Value → Bool
  | null, null => true
  | text s, text t => s == t
  | closure id _ _ _, closure id' _ _ _ => id == id'
  | native id _ _ _ _, native id' _ _ _ _ => id == id'
  | list id items, list id' items' => id == id' || alikeAll items items'
  | absent, absent => true
  | a, b =>
    match a.toNumeric?, b.toNumeric? with
    | some m, some n => m.same n
    | _, _ => false

/-- Equality of rows of values, item by item. -/
def alikeAll : List Value → List Value → Bool
  | [], [] => true
  | a :: as, b :: bs => alike a b && alikeAll as bs
  | _, _ => false

end

/-- The equality of the language. -/
def same (a b : Value) : Bool :=
  if a.isCallable || b.isCallable then
    a.callableId?.isSome && a.callableId? == b.callableId?
  else
    match a, b with
    | bool x, bool y => x == y
    | int m, int n => m == n
    | float x, float y => x == y
    | null, null | text _, text _ | list _ _, list _ _ | absent, absent => alike a b
    | _, _ => false

end Klex.Value
