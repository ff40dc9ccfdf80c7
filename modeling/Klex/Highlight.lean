import Klex.Token.Tokenize

/-!
# Highlighting

A source text in colour.

* **`Span`** — a piece of text and its colour, if it has one.
* **`highlight`** — the spans of a text; any text has them.
* **`highlightHtml`** — the text as a fragment of HTML, one coloured element for each coloured span.
-/

namespace Klex

/-- A piece of text and the colour it is shown in. -/
structure Span where
  text : String
  color : Option String
  deriving DecidableEq, Repr

/-- The span of a token. -/
def Span.ofToken (t : Token) : Span := ⟨t.text, t.color⟩

/-- The coloured spans of a text.  Tolerant tokens with the standard lexicon exist for every text. -/
def highlight (source : String) : List Span :=
  match tokenize .tolerant source with
  | .ok tokens => tokens.map Span.ofToken
  | .error _ => []

/-- One character of text inside an element. -/
def escapeHtml (c : Char) : List Char :=
  if c = '&' then "&amp;".toList
  else if c = '<' then "&lt;".toList
  else if c = '>' then "&gt;".toList
  else [c]

/-- A span as HTML. -/
def Span.toHtml (s : Span) : List Char :=
  let body := s.text.toList.flatMap escapeHtml
  match s.color with
  | none => body
  | some color =>
    ("<span style=\"color: " ++ color ++ ";\">").toList ++ body ++ "</span>".toList

/-- A source text as HTML. -/
def highlightHtml (source : String) : String :=
  String.ofList ((highlight source).flatMap Span.toHtml)

end Klex
