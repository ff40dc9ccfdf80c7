import Klex.Literal
import Klex.Decimal.Binary64

/-!
# Numbers across their types

Comparison of whole numbers and doubles by the real number they stand for.

* **`Numeric`** — a whole number or a double.
* **`Numeric.same`** — equality as real numbers, without rounding.  No value that is not a number
  equals anything.
* **`Literal.alike`** — equality of literals in which a truth value counts as zero or one.
-/

namespace Klex

/-- A number of either type. -/
inductive Numeric where
  | int (n : Int)
  | float (x : Float)

namespace Numeric

/-- Whether a whole number is exactly the number that a double stands for. -/
def intIsFloat (n : Int) (x : Float) : Bool :=
  match Decimal.partsOf x with
  | .finite negative v =>
    match v.toNat? with
    | some m => n == (if negative then -(m : Int) else m)
    | none => false
  | _ => false

/-- Equality as real numbers. -/
def same : Numeric → Numeric → Bool
  | int m, int n => m == n
  | float x, float y => x == y
  | int n, float x | float x, int n => intIsFloat n x

/-- A truth value as a number. -/
def ofBool (b : Bool) : Numeric := int (if b then 1 else 0)

end Numeric

namespace Literal

/-- The number that a literal counts as. -/
def toNumeric? : Literal → Option Numeric
  | bool b => some (.ofBool b)
  | int n => some (.int n)
  | float x => some (.float x)
  | null | text _ => none

/-- Equality across types: numbers and truth values by what they count as, the rest by themselves. -/
def alike (a b : Literal) : Bool :=
  match a, b with
  | null, null => true
  | text s, text t => s == t
  | _, _ =>
    match a.toNumeric?, b.toNumeric? with
    | some m, some n => m.same n
    | _, _ => false

end Literal

end Klex
