/-!
# Literals

The value that a token of source text stands for by itself.

* **`Literal`** — nothing, a truth value, a number or a text.  Whole numbers and doubles are kept
  apart.
-/

namespace Klex

/-- A value written down in source text. -/
inductive Literal where
  | null
  | bool (b : Bool)
  | int (n : Int)
  | float (x : Float)
  | text (s : String)

namespace Literal

/-- Whether the literal is a text. -/
def isText : Literal → Bool
  | text _ => true
  | _ => false

/-- The text that the literal is; nothing for any other literal. -/
def asText : Literal → String
  | text s => s
  | _ => ""

theorem eq_text_of_isText : ∀ {l : Literal}, l.isText = true → l = .text l.asText
  | .text _, _ => rfl

/-- The greatest whole number a numeric literal is kept as, `2 ^ 63 - 1`; beyond it the literal is a
double. -/
def maxInt : Nat := 9223372036854775807

/-- The greatest number of digits a whole-number literal may have; with more it is a double. -/
def maxIntDigits : Nat := 4300

end Literal

end Klex
