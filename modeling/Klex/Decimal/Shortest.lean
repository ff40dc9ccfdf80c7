import Klex.Decimal.Binary64

/-!
# The fewest digits that read back

The decimal with the fewest digits that is nearer to a given double than to any other.

* **`Decimal.Magnitude.readsBack`** — whether a decimal lies in the interval of reals that round to
  a magnitude.  The interval reaches halfway to the two neighbours; its ends belong to it exactly
  when the mantissa is even.
* **`Decimal.Magnitude.neighbour?`** — of the two decimals of a given grid next to a magnitude, the
  one that reads back; of two that do, the nearer, and on a tie the even one.
* **`Decimal.shortest`** — the first hit on ever finer grids, as a row of digits and the place of
  the decimal point.

All comparisons are of natural numbers, so nothing is rounded on the way.
-/

namespace Klex.Decimal

/-- Compares `d * 10 ^ e` with `x * 2 ^ p`. -/
def compareScaled (d : Nat) (e : Int) (x : Nat) (p : Int) : Ordering :=
  compare (d * pow10 e.toNat * pow2 (-p).toNat) (x * pow2 p.toNat * pow10 (-e).toNat)

/-- Whether the decimal `d * 10 ^ e` rounds to the magnitude. -/
def Magnitude.readsBack (v : Magnitude) (d : Nat) (e : Int) : Bool :=
  let quarter := v.exponent - 2
  let below := compareScaled d e (4 * v.mantissa - (if v.narrowBelow then 1 else 2)) quarter
  let above := compareScaled d e (4 * v.mantissa + 2) quarter
  if v.mantissa % 2 = 0 then below != .lt && above != .gt else below == .gt && above == .lt

/-- The number of multiples of `10 ^ e` up to the magnitude. -/
def Magnitude.countOf (v : Magnitude) (e : Int) : Nat :=
  v.mantissa * pow2 v.exponent.toNat * pow10 (-e).toNat
    / (pow10 e.toNat * pow2 (-v.exponent).toNat)

/-- The multiple of `10 ^ e` beside the magnitude that rounds to it, counted in units of `10 ^ e`. -/
def Magnitude.neighbour? (v : Magnitude) (e : Int) : Option Nat :=
  let d := v.countOf e
  match v.readsBack d e, v.readsBack (d + 1) e with
  | true, true =>
    -- twice the magnitude against the sum of the two candidates
    match compareScaled (2 * d + 1) e v.mantissa (v.exponent + 1) with
    | .gt => some d
    | .lt => some (d + 1)
    | .eq => some (if d % 2 = 0 then d else d + 1)
  | true, false => some d
  | false, true => some (d + 1)
  | false, false => none

/-- The least `k` for which the magnitude is below `10 ^ k`.  The binary logarithm gives `k` up to
two, and exact comparison decides. -/
def Magnitude.scale (v : Magnitude) : Int :=
  let guess := ((v.mantissa.log2 : Int) + v.exponent) * 30103 / 100000 - 1
  let candidates := [guess, guess + 1, guess + 2]
  (candidates.find? fun k => compareScaled 1 k v.mantissa v.exponent == .gt).getD (guess + 3)

/-- A positive decimal: the point stands before the digit with index `point`, so that the value is
`0.digits * 10 ^ point`. -/
structure Digits where
  digits : List Char
  point : Int
  deriving DecidableEq, Repr

/-- The digits of `d * 10 ^ e`, without zeros at their end. -/
def Digits.ofScaled (d : Nat) (e : Int) : Digits :=
  let row := Nat.toDigits 10 d
  ⟨(row.reverse.dropWhile (· == '0')).reverse, row.length + e⟩

/-- The exact decimal value of a magnitude. -/
def Magnitude.exactDigits (v : Magnitude) : Digits :=
  .ofScaled (v.mantissa * pow2 v.exponent.toNat * Nat.pow 5 (-v.exponent).toNat) (min v.exponent 0)

/-- The fewest digits that read back to a positive magnitude.  Seventeen always suffice. -/
def shortest (v : Magnitude) : Digits :=
  let k := v.scale
  let hit := (List.range 17).findSome? fun n =>
    let e := k - (n + 1 : Nat)
    (v.neighbour? e).map fun d => Digits.ofScaled d e
  hit.getD v.exactDigits

end Klex.Decimal
