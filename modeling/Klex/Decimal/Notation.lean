import Klex.Decimal.Shortest

/-!
# Writing doubles

The written form of a double: its fewest digits, positionally where that is readable, otherwise with
an exponent.

* **`Decimal.Digits.positional`**, **`Decimal.Digits.scientific`** — the two layouts.
* **`Decimal.write`** — the form that identifies a double.
-/

namespace Klex.Decimal

/-- Digits around a decimal point, with at least one digit on either side. -/
def Digits.positional (d : Digits) : List Char :=
  match d.point with
  | .negSucc n => '0' :: '.' :: List.replicate (n + 1) '0' ++ d.digits
  | .ofNat 0 => '0' :: '.' :: d.digits
  | .ofNat p =>
    let whole := d.digits.take p
    let fraction := d.digits.drop p
    whole ++ List.replicate (p - whole.length) '0'
      ++ '.' :: (if fraction.isEmpty then ['0'] else fraction)

/-- Digits with the point after the first, then a signed exponent of at least two digits. -/
def Digits.scientific (d : Digits) : List Char :=
  let exponent := d.point - 1
  let places := Nat.toDigits 10 exponent.natAbs
  let fraction := d.digits.drop 1
  d.digits.take 1 ++ (if fraction.isEmpty then [] else '.' :: fraction)
    ++ 'e' :: (if exponent < 0 then '-' else '+')
    :: List.replicate (2 - places.length) '0' ++ places

/-- Decimals from `0.0001` up to sixteen digits before the point are laid out positionally. -/
def Digits.write (d : Digits) : List Char :=
  if -3 ≤ d.point && d.point ≤ 16 then d.positional else d.scientific

/-- The form that identifies a double.  A negative zero keeps its sign. -/
def write (x : Float) : String :=
  match partsOf x with
  | .notANumber => "nan"
  | .infinite negative => if negative then "-inf" else "inf"
  | .finite negative v =>
    let row := if v.mantissa = 0 then ['0', '.', '0'] else (shortest v).write
    String.ofList (if negative then '-' :: row else row)

end Klex.Decimal
