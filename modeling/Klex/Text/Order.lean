/-!
# The order of texts

Texts are ordered by their code points, as words in a dictionary are by letters.

* **`Text.sortOn`** — a row in ascending order of a text that belongs to each item.  Items with the
  same text keep their order.
-/

namespace Klex.Text

variable {α : Type}

/-- Puts an item into a sorted row, before the first that does not come ahead of it. -/
def insertOn (key : α → String) (a : α) : List α → List α
  | [] => [a]
  | b :: rest => if key b < key a then b :: insertOn key a rest else a :: b :: rest

/-- A row in ascending order of its keys. -/
def sortOn (key : α → String) : List α → List α
  | [] => []
  | a :: rest => insertOn key a (sortOn key rest)

end Klex.Text
