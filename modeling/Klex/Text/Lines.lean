/-!
# Lines

Two ways to see line ends.

* **`Text.splitLines`** — the lines of a text for display.  Every character that breaks a line on
  paper ends one, a carriage return directly before a line feed belongs to that line feed, and an
  end of line at the very end of the text opens no further line.
* **`Text.plainLineEnds`** — a text in which carriage returns, alone or before a line feed, have
  become line feeds: what reading a text file yields.
-/

namespace Klex.Text

/-- Whether a character ends a displayed line. -/
def breaksLine (c : Char) : Bool :=
  [0x0A, 0x0B, 0x0C, 0x0D, 0x1C, 0x1D, 0x1E, 0x85, 0x2028, 0x2029].contains c.toNat

/-- Puts a character in front of the first line, opening one if there is none. -/
def extendLine (c : Char) : List (List Char) → List (List Char)
  | [] => [[c]]
  | line :: more => (c :: line) :: more

/-- The displayed lines of a text, without their ends. -/
def splitLines : List Char → List (List Char)
  | [] => []
  | '\r' :: '\n' :: rest => [] :: splitLines rest
  | c :: rest => if breaksLine c then [] :: splitLines rest else extendLine c (splitLines rest)

/-- A text whose only line ends are line feeds. -/
def plainLineEnds : List Char → List Char
  | [] => []
  | '\r' :: '\n' :: rest => '\n' :: plainLineEnds rest
  | c :: rest => (if c = '\r' then '\n' else c) :: plainLineEnds rest

end Klex.Text
