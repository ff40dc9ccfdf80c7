import Klex.Failure
import Klex.Token

/-!
# The lexicon

The data that turns shapes of text into kinds and colours of tokens.

* **`Lexicon`** — keywords, the kinds of symbols, the colours of classes.
* **`Lexicon.standard`** — the lexicon of the language.
* **`Lexicon.kindOf`**, **`Lexicon.colorOf`** — look-ups; a gap in the lexicon is a fault.

Keywords are ordinary identifiers.  They only matter for colour here; the grammar compares the text
of identifiers where it expects a keyword.
-/

namespace Klex

/-- What colours are chosen by. -/
inductive ColorClass where
  | keyword
  | identifier
  | string
  | literal
  | comment
  | unknown
  deriving DecidableEq, Repr

namespace ColorClass

/-- Every class. -/
def all : List ColorClass := [keyword, identifier, string, literal, comment, unknown]

/-- The name of a class in a lexicon. -/
def name : ColorClass → String
  | keyword => "keyword"
  | identifier => "identifier"
  | string => "string"
  | literal => "literal"
  | comment => "comment"
  | unknown => "unknown"

end ColorClass

/-- The words, symbols and colours of a language. -/
structure Lexicon where
  keywords : List String
  symbols : List (String × Kind)
  colors : List (ColorClass × String)

namespace Lexicon

/-- The lexicon of the language. -/
def standard : Lexicon where
  keywords := ["function", "return", "if", "else"]
  symbols :=
    [("+", .operator), ("-", .operator), ("*", .operator), ("/", .operator), ("==", .operator),
     ("<", .operator), (">", .operator), ("<=", .operator), (">=", .operator), ("||", .operator),
     ("&&", .operator), ("=", .assign), ("(", .openParen), (")", .closeParen),
     ("\x7b", .openCurly), ("\x7d", .closeCurly), (",", .comma), ("!", .negate)]
  colors :=
    [(.keyword, "#F86700"), (.identifier, "#DDD"), (.string, "#00FF00"), (.literal, "#FE9900"),
     (.comment, "#AAA"), (.unknown, "#F00")]

/-- The kind of a symbol. -/
def kindOf (lex : Lexicon) (symbol : String) : Except Fault Kind :=
  match lex.symbols.lookup symbol with
  | some kind => .ok kind
  | none => .error (.missingSymbol symbol)

/-- The class that a token's colour goes by, if tokens of its kind are coloured. -/
def colorClass? (lex : Lexicon) (kind : Kind) (text : String) : Option ColorClass :=
  match kind with
  | .identifier => some (if lex.keywords.contains text then .keyword else .identifier)
  | .string => some .string
  | .boolean | .null => some .literal
  | .comment => some .comment
  | .unknown => some .unknown
  | _ => none

/-- The colour of a token. -/
def colorOf (lex : Lexicon) (kind : Kind) (text : String) : Except Fault (Option String) :=
  match lex.colorClass? kind text with
  | none => .ok none
  | some c =>
    match lex.colors.lookup c with
    | some color => .ok (some color)
    | none => .error (.missingColor c.name)

end Lexicon

end Klex
