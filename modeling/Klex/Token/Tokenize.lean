import Klex.Decimal.Reading
import Klex.Lexicon
import Klex.Token.Shape

/-!
# From text to tokens

Pieces of text become tokens: literals are decoded, symbols get their kind, and everything gets its
colour.

* **`Token.decodeString`** — the text that a string literal stands for.
* **`Token.numberValue?`** — the number that a numeric literal stands for.
* **`tokenize`** — all tokens of a text, in order.  In strict mode an unterminated string or an
  unreadable number is a failure; in tolerant mode it is a token of unknown kind, so that any text
  can be shown in colour.
-/

namespace Klex

/-- What becomes of text that is no token of the language. -/
inductive Mode where
  | strict
  | tolerant
  deriving DecidableEq, Repr

namespace Token

/-- Undoes the escapes in the body of a string: a backslash before a backslash or before the
delimiter stands for that character, any other for itself. -/
def decodeBody (delimiter : Char) : List Char → List Char
  | [] => []
  | '\\' :: c :: rest =>
    if c = '\\' || c = delimiter then c :: decodeBody delimiter rest
    else '\\' :: decodeBody delimiter (c :: rest)
  | c :: rest => c :: decodeBody delimiter rest

/-- The text that a string literal stands for, delimiters and all. -/
def decodeString : List Char → List Char
  | [] => []
  | delimiter :: rest => decodeBody delimiter rest.dropLast

/-- The number that a numeric literal stands for.  Digits alone are a whole number as long as that
is small enough; everything else is the nearest double. -/
def numberValue? (cs : List Char) : Option Literal :=
  let n := Decimal.natOfDigits cs
  if cs.all Char.isDigit && cs.length ≤ Literal.maxIntDigits && n ≤ Literal.maxInt then
    some (.int n)
  else
    (Decimal.readUnsigned? cs).map .float

/-- A token of a known kind, with the colour that the lexicon gives it. -/
def make (lex : Lexicon) (kind : Kind) (text : String) (pos : Nat) (value : Literal)
    (named : kind.isNamed = true → value.isText = true) : Except Stop Token :=
  match lex.colorOf kind text with
  | .ok color => .ok ⟨kind, text, pos, value, color, true, named⟩
  | .error fault => .error (.fault fault)

/-- Marks a token as cut off by the end of the text. -/
def unclosed (t : Token) : Token := { t with closed := false }

/-- A piece that is no token of the language. -/
def reject (lex : Lexicon) (mode : Mode) (text : String) (pos : Nat) (cause : Cause) :
    Except Stop Token :=
  match mode with
  | .strict => .error (.failure ⟨cause, some pos⟩)
  | .tolerant => make lex .unknown text pos .null (Kind.unnamed rfl)

/-- The token of a piece at a given offset. -/
def ofPiece (lex : Lexicon) (mode : Mode) (piece : Piece) (pos : Nat) : Except Stop Token :=
  let text := String.ofList piece.chars
  match piece.shape with
  | .whitespace => make lex .whitespace text pos .null (Kind.unnamed rfl)
  | .comment => make lex .comment text pos .null (Kind.unnamed rfl)
  | .openComment => (make lex .comment text pos .null (Kind.unnamed rfl)).map unclosed
  | .boolean => make lex .boolean text pos (.bool (text == "true")) (Kind.unnamed rfl)
  | .null => make lex .null text pos .null (Kind.unnamed rfl)
  | .identifier => make lex .identifier text pos (.text text) fun _ => rfl
  | .string =>
    make lex .string text pos (.text (String.ofList (decodeString piece.chars))) (Kind.unnamed rfl)
  | .openString => reject lex mode text pos (.unterminatedString (pos + piece.chars.length))
  | .number =>
    match numberValue? piece.chars with
    | some value => make lex .number text pos value (Kind.unnamed rfl)
    | none => reject lex mode text pos (.unreadableNumber text (pos + piece.chars.length))
  | .symbol =>
    match lex.kindOf text with
    | .ok kind => make lex kind text pos (.text text) fun _ => rfl
    | .error fault => .error (.fault fault)
  | .unknown => make lex .unknown text pos .null (Kind.unnamed rfl)

/-- The tokens of consecutive pieces, the first of which starts at a given offset. -/
def ofPieces (lex : Lexicon) (mode : Mode) : Nat → List Piece → Except Stop (List Token)
  | _, [] => .ok []
  | pos, piece :: rest => do
    let token ← ofPiece lex mode piece pos
    let more ← ofPieces lex mode (pos + piece.chars.length) rest
    return token :: more

end Token

/-- The tokens of a text. -/
def tokenizeWith (lex : Lexicon) (mode : Mode) (source : String) : Except Stop (List Token) :=
  Token.ofPieces lex mode 0 (cut source.toList)

/-- The tokens of a text in the language itself. -/
def tokenize (mode : Mode) (source : String) : Except Stop (List Token) :=
  tokenizeWith .standard mode source

end Klex
