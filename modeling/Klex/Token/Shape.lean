/-!
# Shapes of text

How the next token is cut off a text.

* **`Shape`** — the shapes that a piece of text can have.
* **`Shape.measure`** — the length of the piece of a shape at the start of a text, if there is one.
* **`Shape.first`** — the first shape in order that fits, with the length of its piece.  The last
  shape takes any one character, so on a text that is not empty some shape always fits.
* **`cut`** — the whole text in pieces, each with its shape; **`flatMap_chars_cut`** says that the
  pieces make up the text.

The order of the shapes matters: a truth value is tried before an identifier, so `trueish` is a
truth value and then an identifier; comments come before symbols; strings and comments that are
never closed take the rest of the text.
-/

namespace Klex

/-- The shape of a piece of text. -/
inductive Shape where
  | whitespace
  | comment
  /-- A block comment without an end. -/
  | openComment
  | boolean
  | null
  | identifier
  | string
  /-- A string without an end. -/
  | openString
  | number
  | symbol
  /-- Any one character. -/
  | unknown
  deriving DecidableEq, Repr

namespace Shape

/-! ### Classes of characters -/

/-- The layout characters of the language. -/
def isSpace (c : Char) : Bool := c == ' ' || c == '\r' || c == '\n' || c == '\t'

/-- The characters that open and close a string. -/
def isDelimiter (c : Char) : Bool := c == '"' || c == '\'' || c == '\x60'

/-! ### Single shapes -/

/-- The length of a run of characters, unless it is empty. -/
def run? (p : Char → Bool) (cs : List Char) : Option Nat :=
  match (cs.takeWhile p).length with
  | 0 => none
  | n => some n

/-- A fixed text. -/
def word? (word : String) (cs : List Char) : Option Nat :=
  if word.toList.isPrefixOf cs then some word.length else none

/-- The length of the text up to and with the end of a block comment. -/
def commentEnd? : List Char → Option Nat
  | [] => none
  | '*' :: '/' :: _ => some 2
  | _ :: rest => (commentEnd? rest).map (· + 1)

/-- A comment: to the end of the line, or a block with its end. -/
def comment? : List Char → Option Nat
  | '/' :: '/' :: rest => some (2 + (rest.takeWhile (· != '\n')).length)
  | '/' :: '*' :: rest => (commentEnd? rest).map (2 + ·)
  | _ => none

/-- The start of a block comment and all that follows. -/
def openComment? : List Char → Option Nat
  | '/' :: '*' :: rest => some (2 + rest.length)
  | _ => none

/-- A letter, then letters and digits. -/
def identifier? : List Char → Option Nat
  | c :: rest => if c.isAlpha then some (1 + (rest.takeWhile Char.isAlphanum).length) else none
  | [] => none

/-- The length of the body of a string up to and with its closing delimiter.  A backslash takes the
next character along if that is a backslash or the delimiter. -/
def stringEnd? (delimiter : Char) : List Char → Option Nat
  | [] => none
  | '\\' :: c :: rest =>
    if c = '\\' || c = delimiter then (stringEnd? delimiter rest).map (· + 2)
    else (stringEnd? delimiter (c :: rest)).map (· + 1)
  | c :: rest => if c = delimiter then some 1 else (stringEnd? delimiter rest).map (· + 1)

/-- A string with its two delimiters. -/
def string? : List Char → Option Nat
  | d :: rest => if isDelimiter d then (stringEnd? d rest).map (1 + ·) else none
  | [] => none

/-- The start of a string and all that follows. -/
def openString? : List Char → Option Nat
  | d :: rest => if isDelimiter d then some (1 + rest.length) else none
  | [] => none

/-- The length of a decimal point at the start, if there is one. -/
def pointLength : List Char → Nat
  | '.' :: _ => 1
  | _ => 0

/-- The length of an exponent at the start, if there is one: its mark and any digits. -/
def exponentLength : List Char → Nat
  | c :: rest => if c = 'e' || c = 'E' then 1 + (rest.takeWhile Char.isDigit).length else 0
  | [] => 0

/-- Digits, an optional point, digits, an optional exponent; the text starts with a digit or a
point.  Whether the piece is a number is decided later. -/
def number? (cs : List Char) : Option Nat :=
  match cs with
  | c :: _ =>
    if c.isDigit || c = '.' then
      let whole := (cs.takeWhile Char.isDigit).length
      let point := whole + pointLength (cs.drop whole)
      let fraction := point + ((cs.drop point).takeWhile Char.isDigit).length
      some (fraction + exponentLength (cs.drop fraction))
    else none
  | [] => none

/-- The symbols of the language, longer ones before those they start with. -/
def symbols : List String :=
  ["||", "&&", "==", "<=", ">=", "-", "+", "*", "/", "(", ")", "\x7b", "\x7d", ",", "!", "=", "<",
   ">"]

/-! ### All shapes -/

/-- The length of the piece of a shape at the start of a text. -/
def measure : Shape → List Char → Option Nat
  | whitespace, cs => run? isSpace cs
  | comment, cs => comment? cs
  | openComment, cs => openComment? cs
  | boolean, cs => (word? "true" cs).or (word? "false" cs)
  | null, cs => word? "null" cs
  | identifier, cs => identifier? cs
  | string, cs => string? cs
  | openString, cs => openString? cs
  | number, cs => number? cs
  | symbol, cs => symbols.findSome? (word? · cs)
  | unknown, [] => none
  | unknown, _ :: _ => some 1

/-- The order in which shapes are tried. -/
def order : List Shape :=
  [whitespace, comment, openComment, boolean, null, identifier, string, openString, number, symbol,
   unknown]

/-- The first shape that fits, with the length of its piece. -/
def first (cs : List Char) : Shape × Nat :=
  (order.findSome? fun shape => (shape.measure cs).map (shape, ·)).getD (unknown, 1)

/-! ### No piece is empty -/

/-- A fixed text that is not empty is never matched by nothing. -/
theorem word?_pos {word : String} {cs : List Char} {n : Nat} (hw : 0 < word.length)
    (h : word? word cs = some n) : 0 < n := by
  simp only [word?] at h
  split at h <;> simp_all

/-- The piece of a number is never empty. -/
theorem number?_pos {cs : List Char} {n : Nat} (h : number? cs = some n) : 0 < n := by
  cases cs with
  | nil => simp [number?] at h
  | cons c rest =>
    simp only [number?] at h
    split at h
    · rename_i hc
      simp only [Option.some.injEq] at h
      subst h
      by_cases hd : c.isDigit
      · rw [List.takeWhile_cons_of_pos hd, List.length_cons]
        omega
      · have hp : c = '.' := by simpa [hd] using hc
        subst hp
        rw [List.takeWhile_cons_of_neg hd, List.length_nil, List.drop_zero, pointLength]
        omega
    · simp at h

/-- No shape has an empty piece. -/
theorem measure_pos {shape : Shape} {cs : List Char} {n : Nat} (h : shape.measure cs = some n) :
    0 < n := by
  cases shape with
  | whitespace =>
    simp only [measure, run?] at h
    split at h
    · simp at h
    · rename_i nonzero
      simp only [Option.some.injEq] at h
      exact Nat.pos_of_ne_zero fun e => nonzero (h.trans e)
  | comment =>
    simp only [measure, comment?] at h
    split at h
    · simp at h; omega
    · obtain ⟨m, _, rfl⟩ := Option.map_eq_some_iff.1 h
      omega
    · simp at h
  | openComment =>
    simp only [measure, openComment?] at h
    split at h <;> simp at h
    omega
  | boolean =>
    simp only [measure, Option.or_eq_some_iff] at h
    rcases h with h | ⟨_, h⟩ <;> exact word?_pos (by decide) h
  | null => exact word?_pos (by decide) h
  | identifier =>
    simp only [measure, identifier?] at h
    split at h
    · split at h <;> simp at h
      omega
    · simp at h
  | string =>
    simp only [measure, string?] at h
    split at h
    · split at h
      · obtain ⟨m, _, rfl⟩ := Option.map_eq_some_iff.1 h
        omega
      · simp at h
    · simp at h
  | openString =>
    simp only [measure, openString?] at h
    split at h
    · split at h <;> simp at h
      omega
    · simp at h
  | number => exact number?_pos h
  | symbol =>
    obtain ⟨w, hw, h⟩ := List.exists_of_findSome?_eq_some h
    have : ∀ w ∈ symbols, 0 < w.length := by decide
    exact word?_pos (this w hw) h
  | unknown =>
    cases cs <;> simp [measure] at h
    omega

/-- The first shape that fits takes at least one character. -/
theorem first_pos (cs : List Char) : 0 < (first cs).2 := by
  simp only [first]
  cases h : order.findSome? fun shape => (shape.measure cs).map (shape, ·) with
  | none => simp
  | some r =>
    obtain ⟨shape, _, hs⟩ := List.exists_of_findSome?_eq_some h
    obtain ⟨n, hn, rfl⟩ := Option.map_eq_some_iff.1 hs
    exact measure_pos hn

end Shape

/-! ### Cutting -/

/-- A piece of text with its shape. -/
structure Piece where
  shape : Shape
  chars : List Char
  deriving DecidableEq, Repr

/-- Cuts at most `n` pieces off a text. -/
def cutAtMost : Nat → List Char → List Piece
  | 0, _ | _, [] => []
  | n + 1, cs =>
    let (shape, size) := Shape.first cs
    ⟨shape, cs.take size⟩ :: cutAtMost n (cs.drop size)

/-- Cuts a text into pieces.  No piece is empty, so there are at most as many as characters. -/
def cut (cs : List Char) : List Piece := cutAtMost cs.length cs

/-- Cutting loses nothing and changes no order: the pieces make up the text. -/
theorem flatMap_chars_cut (cs : List Char) : (cut cs).flatMap Piece.chars = cs := by
  have go : ∀ (n : Nat) (cs : List Char), cs.length ≤ n →
      (cutAtMost n cs).flatMap Piece.chars = cs := by
    intro n
    induction n with
    | zero => intro cs h; simp_all [cutAtMost]
    | succ n ih =>
      intro cs h
      cases cs with
      | nil => simp [cutAtMost]
      | cons c cs =>
        have hp := Shape.first_pos (c :: cs)
        simp only [cutAtMost, List.flatMap_cons]
        rw [ih _ (by simp at h ⊢; omega), List.take_append_drop]
  exact go cs.length cs (Nat.le_refl _)

end Klex
