import Klex.Literal
import Klex.Numeric
import Klex.Text.Quoted

/-!
# Tokens

The classified pieces of a source text.

* **`Kind`** — the classes of tokens; a lexicon may add classes of its own.
* **`Token`** — a piece of text with its place, its decoded value and its colour.
* **`Token.name`** — what an identifier or an operator is called; this is its value, not its spelling.
* **`Token.isTrivia`** — whether a token only separates others.
* **`Token.same`** — equality of tokens, which disregards colour.
-/

namespace Klex

/-- The class of a token. -/
inductive Kind where
  | whitespace
  | comment
  | boolean
  | null
  | identifier
  | string
  | number
  | operator
  | assign
  | openParen
  | closeParen
  | openCurly
  | closeCurly
  | comma
  | negate
  | unknown
  /-- A class that only a lexicon knows. -/
  | other (name : String)
  deriving DecidableEq, Repr

namespace Kind

/-- The classes that every lexicon shares. -/
def common : List Kind :=
  [whitespace, comment, boolean, null, identifier, string, number, operator, assign, openParen,
   closeParen, openCurly, closeCurly, comma, negate, unknown]

/-- The name of a class. -/
def name : Kind → String
  | whitespace => "whitespace"
  | comment => "comment"
  | boolean => "boolean"
  | null => "null"
  | identifier => "identifier"
  | string => "string"
  | number => "number"
  | operator => "operator"
  | assign => "assign"
  | openParen => "open-paren"
  | closeParen => "close-paren"
  | openCurly => "open-curly"
  | closeCurly => "close-curly"
  | comma => "comma"
  | negate => "negate"
  | unknown => "unknown"
  | other name => name

/-- The class with a given name. -/
def ofName (s : String) : Kind :=
  (common.find? fun k => k.name == s).getD (other s)

/-- Whether tokens of this class only separate others. -/
def isTrivia : Kind → Bool
  | whitespace | comment => true
  | _ => false

/-- Whether tokens of this class stand for a value. -/
def isLiteral : Kind → Bool
  | string | number | boolean | null => true
  | _ => false

/-- Whether tokens of this class stand for a name or a symbol. -/
def isNamed : Kind → Bool
  | identifier | operator => true
  | _ => false

/-- Of the other classes nothing has to be shown. -/
theorem unnamed {kind : Kind} {P : Prop} (h : kind.isNamed = false) (h' : kind.isNamed = true) : P :=
  absurd (h.symm.trans h') Bool.false_ne_true

end Kind

/-- A piece of source text. -/
structure Token where
  kind : Kind
  /-- The exact source text. -/
  text : String
  /-- The offset of the first character. -/
  pos : Nat
  /-- What the text stands for: the name of an identifier, the value of a literal, the text of a
  symbol, and nothing for the rest. -/
  value : Literal
  /-- The colour to show the token in, if any. -/
  color : Option String
  /-- False only for a block comment that the end of the text cuts off. -/
  closed : Bool
  /-- Identifiers and operators stand for texts; these are the names and the symbols in trees. -/
  named : kind.isNamed = true → value.isText = true

namespace Token

/-- The offset just after the last character. -/
def stop (t : Token) : Nat := t.pos + t.text.length

/-- What the token is called: the name of an identifier, the symbol of an operator. -/
def name (t : Token) : String := t.value.asText

theorem value_eq_name {t : Token} (h : t.kind.isNamed = true) : t.value = .text t.name :=
  Literal.eq_text_of_isText (t.named h)

/-- Whether the token only separates others. -/
def isTrivia (t : Token) : Bool := t.kind.isTrivia

/-- Equality of tokens.  Colour is a matter of display and does not count. -/
def same (a b : Token) : Bool :=
  a.kind == b.kind && a.text == b.text && a.pos == b.pos && a.value.alike b.value
    && a.closed == b.closed

/-- A token in one line, for messages to the developer. -/
def describe (t : Token) : String :=
  "Token(" ++ Text.quoted t.kind.name ++ ", " ++ Text.quoted t.text ++ ", pos=" ++ toString t.pos
    ++ (if t.closed then "" else ", closed=False") ++ ")"

end Token

end Klex
