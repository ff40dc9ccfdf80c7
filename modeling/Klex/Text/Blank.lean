/-!
# Blank characters

Which characters count as surrounding space, and trimming a line of them.

* **`Text.isBlank`** — the white space of Unicode together with the four ASCII information
  separators.
* **`Text.trim`** — a text without the blanks at its two ends.
-/

namespace Klex.Text

/-- The inclusive ranges of blank code points, in ascending order. -/
def blanks : List (Nat × Nat) :=
  [(0x09, 0x0D), (0x1C, 0x20), (0x85, 0x85), (0xA0, 0xA0), (0x1680, 0x1680), (0x2000, 0x200A),
   (0x2028, 0x2029), (0x202F, 0x202F), (0x205F, 0x205F), (0x3000, 0x3000)]

/-- Whether a character is blank. -/
def isBlank (c : Char) : Bool :=
  blanks.any fun (lo, hi) => lo ≤ c.toNat && c.toNat ≤ hi

/-- A text without the blanks at its two ends. -/
def trim (cs : List Char) : List Char :=
  ((cs.dropWhile isBlank).reverse.dropWhile isBlank).reverse

end Klex.Text
