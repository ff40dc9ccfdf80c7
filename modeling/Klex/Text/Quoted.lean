import Klex.Text.Printable

/-!
# Quoted text

A text between quotes, on one line and in printable characters only, as messages show it.

* **`Text.quoteFor`** — the quote that is used: the single one, unless the text has a single quote
  and no double one.
* **`Text.escape`** — how one character is written inside the quotes.
* **`Text.quoted`** — the whole form.

A character without a printable form is written by its code point: two hexadecimal digits after
`\x`, four after `\u`, eight after `\U`, whichever is the first to hold it.
-/

namespace Klex.Text

/-- The quote that stands around a text. -/
def quoteFor (cs : List Char) : Char :=
  if cs.contains '\'' && !cs.contains '"' then '"' else '\''

/-- A number in lower-case hexadecimal, padded with zeros to at least `width` digits. -/
def hexadecimal (width n : Nat) : List Char :=
  let digits := Nat.toDigits 16 n
  List.replicate (width - digits.length) '0' ++ digits

/-- A character by its code point. -/
def numericEscape (c : Char) : List Char :=
  let n := c.toNat
  if n < 0x100 then '\\' :: 'x' :: hexadecimal 2 n
  else if n < 0x10000 then '\\' :: 'u' :: hexadecimal 4 n
  else '\\' :: 'U' :: hexadecimal 8 n

/-- One character as it is written between two quotes `q`. -/
def escape (q c : Char) : List Char :=
  if c = q || c = '\\' then ['\\', c]
  else if c = '\n' then ['\\', 'n']
  else if c = '\r' then ['\\', 'r']
  else if c = '\t' then ['\\', 't']
  else if isPrintable c then [c]
  else numericEscape c

/-- A text in quotes. -/
def quoted (s : String) : String :=
  let cs := s.toList
  let q := quoteFor cs
  String.ofList (q :: cs.flatMap (escape q) ++ [q])

end Klex.Text
