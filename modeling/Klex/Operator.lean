import Klex.Failure
import Klex.Value.Equality
import Klex.Value.Display

/-!
# Operators

* **`Operator`** — the operators of the language; **`Operator.ofSymbol?`** finds one by its symbol.
* **`Operator.apply`** — the result for two operands: nothing where the operator is not defined for
  their types, and a fault where a whole number is too large for arithmetic.

Arithmetic and comparison are those of doubles.  A sum with a text is a concatenation.  The logical
operators take any values and give a truth value.
-/

namespace Klex

/-- An operator. -/
inductive Operator where
  | add
  | subtract
  | multiply
  | divide
  | equal
  | less
  | greater
  | atMost
  | atLeast
  | or
  | and
  deriving DecidableEq, Repr

namespace Operator

/-- Every operator. -/
def all : List Operator :=
  [add, subtract, multiply, divide, equal, less, greater, atMost, atLeast, or, and]

/-- How an operator is written. -/
def symbol : Operator → String
  | add => "+"
  | subtract => "-"
  | multiply => "*"
  | divide => "/"
  | equal => "=="
  | less => "<"
  | greater => ">"
  | atMost => "<="
  | atLeast => ">="
  | or => "||"
  | and => "&&"

/-- The operator that a symbol stands for. -/
def ofSymbol? (s : String) : Option Operator := all.find? fun op => op.symbol == s

end Operator

/-- The double nearest to a whole number. -/
def floatOfInt (n : Int) : Except Fault Float :=
  let x := Float.ofInt n
  if x.isInf then .error .integerTooLarge else .ok x

namespace Value

/-- The double that a number stands for; nothing for a value of another type. -/
def toFloat? : Value → Option (Except Fault Float)
  | int n => some (floatOfInt n)
  | float x => some (.ok x)
  | _ => none

end Value

namespace Operator

/-- An operation on doubles, defined where both operands are numbers. -/
def onNumbers (f : Float → Float → Value) (a b : Value) : Except Fault (Option Value) :=
  match a.toFloat?, b.toFloat? with
  | some left, some right => do
    let x ← left
    let y ← right
    return some (f x y)
  | _, _ => return none

/-- The result of an operator, if it is defined for its operands. -/
def apply (op : Operator) (a b : Value) : Except Fault (Option Value) :=
  match op with
  | add =>
    if a.isText || b.isText then .ok (some (.text (a.toText ++ b.toText)))
    else onNumbers (fun x y => .float (x + y)) a b
  | subtract => onNumbers (fun x y => .float (x - y)) a b
  | multiply => onNumbers (fun x y => .float (x * y)) a b
  | divide => onNumbers (fun x y => .float (x / y)) a b
  | equal => .ok (some (.bool (a.same b)))
  | less => onNumbers (fun x y => .bool (x < y)) a b
  | greater => onNumbers (fun x y => .bool (y < x)) a b
  | atMost => onNumbers (fun x y => .bool (x ≤ y)) a b
  | atLeast => onNumbers (fun x y => .bool (y ≤ x)) a b
  | or => .ok (some (.bool (a.isTruthy || b.isTruthy)))
  | and => .ok (some (.bool (a.isTruthy && b.isTruthy)))

end Operator

/-- The result of the operator with a given symbol. -/
def applyOperator (symbol : String) (a b : Value) : Except Fault (Option Value) :=
  match Operator.ofSymbol? symbol with
  | some op => op.apply a b
  | none => .error (.unknownOperator symbol)

end Klex
