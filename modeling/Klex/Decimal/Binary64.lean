/-!
# The parts of a double

A double is a sign and either not a number, infinite, or a magnitude `mantissa * 2 ^ exponent`.

* **`Decimal.Magnitude`** — a finite magnitude in exact arithmetic.
* **`Decimal.Parts`**, **`Decimal.partsOf`** — what the bits of a double stand for.
* **`Decimal.Magnitude.toNat?`** — the natural number a magnitude is, if it is one.
-/

namespace Klex.Decimal

/-- The finite magnitude `mantissa * 2 ^ exponent`.  `narrowBelow` says that the next smaller double
is only half as far away as the next larger one: the magnitude is a power of two. -/
structure Magnitude where
  mantissa : Nat
  exponent : Int
  narrowBelow : Bool
  deriving DecidableEq, Repr

/-- What a double stands for. -/
inductive Parts where
  | notANumber
  | infinite (negative : Bool)
  | finite (negative : Bool) (magnitude : Magnitude)
  deriving DecidableEq, Repr

/-- A power of two. -/
def pow2 (n : Nat) : Nat := Nat.pow 2 n

/-- A power of ten. -/
def pow10 (n : Nat) : Nat := Nat.pow 10 n

/-- The parts that the bits of a double encode. -/
def partsOf (x : Float) : Parts :=
  let bits := x.toBits.toNat
  let negative := decide (pow2 63 ≤ bits)
  let scale : Nat := bits / pow2 52 % pow2 11
  let fraction : Nat := bits % pow2 52
  if scale = pow2 11 - 1 then
    if fraction = 0 then .infinite negative else .notANumber
  else if scale = 0 then
    .finite negative ⟨fraction, -1074, false⟩
  else
    .finite negative ⟨pow2 52 + fraction, (scale : Int) - 1075, fraction == 0 && 1 < scale⟩

/-- The natural number that a magnitude is, if it has no fractional part. -/
def Magnitude.toNat? (v : Magnitude) : Option Nat :=
  match v.exponent with
  | .ofNat e => some (v.mantissa * pow2 e)
  | .negSucc e =>
    let unit := pow2 (e + 1)
    if v.mantissa % unit = 0 then some (v.mantissa / unit) else none

end Klex.Decimal
