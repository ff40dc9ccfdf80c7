/-!
# Reading decimals

From decimal text to the nearest double.

* **`Decimal.natOfDigits`** — the value of a row of ASCII digits.
* **`Decimal.nearest`** — the double nearest to `m * 10 ^ e`.
* **`Decimal.readUnsigned?`** — a number without sign: digits with an optional point, at least one
  digit in all, then an optional exponent with at least one digit.
* **`Decimal.read?`** — the same with an optional sign in front, or the name of an infinity or of
  the value that is no number.
-/

namespace Klex.Decimal

/-- The value of a row of ASCII digits, most significant first. -/
def natOfDigits (cs : List Char) : Nat :=
  cs.foldl (fun n c => 10 * n + (c.toNat - '0'.toNat)) 0

/-- The double nearest to `m * 10 ^ e`, ties to even.  Magnitudes far outside the range of doubles
are decided by their size alone, so a huge exponent costs nothing. -/
def nearest (m : Nat) (e : Int) : Float :=
  let size : Int := (Nat.toDigits 10 m).length + e
  if m = 0 || size < -400 then 0.0
  else if 400 < size then 1.0 / 0.0
  else Float.ofScientific m (e < 0) e.natAbs

/-- An exponent as it stands after its mark: an optional sign and at least one digit. -/
def readExponent? (cs : List Char) : Option Int :=
  let unsigned (ds : List Char) : Option Nat :=
    if ds.isEmpty || !ds.all Char.isDigit then none else some (natOfDigits ds)
  match cs with
  | '-' :: ds => (unsigned ds).map fun n => -(n : Int)
  | '+' :: ds => (unsigned ds).map Int.ofNat
  | ds => (unsigned ds).map Int.ofNat

/-- Splits the digits after a point from what follows them. -/
def readFraction (cs : List Char) : List Char × List Char :=
  match cs with
  | '.' :: rest => rest.span Char.isDigit
  | rest => ([], rest)

/-- A number without sign, if the whole text is one. -/
def readUnsigned? (cs : List Char) : Option Float :=
  let (whole, rest) := cs.span Char.isDigit
  let (fraction, rest) := readFraction rest
  let mantissa := whole ++ fraction
  let finish (e : Int) := nearest (natOfDigits mantissa) (e - fraction.length)
  if mantissa.isEmpty then none
  else match rest with
    | [] => some (finish 0)
    | c :: digits => if c = 'e' || c = 'E' then (readExponent? digits).map finish else none

/-- A magnitude: a number without sign, or a name in any case. -/
def readMagnitude? (cs : List Char) : Option Float :=
  match String.ofList (cs.map Char.toLower) with
  | "nan" => some (0.0 / 0.0)
  | "inf" | "infinity" => some (1.0 / 0.0)
  | _ => readUnsigned? cs

/-- A number with an optional sign. -/
def read? (cs : List Char) : Option Float :=
  match cs with
  | '-' :: rest => (readMagnitude? rest).map fun x => -x
  | '+' :: rest => readMagnitude? rest
  | rest => readMagnitude? rest

end Klex.Decimal
