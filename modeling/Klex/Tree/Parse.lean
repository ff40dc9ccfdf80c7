import Klex.Grammar
import Klex.Report
import Klex.Token.Tokenize

/-!
# Parsing

From tokens and from text to programs.

* **`Grammar.run`** — a program, or where the tokens stop being one.
* **`Program.ofTokensWithin`**, **`Program.ofTokens`** — the same with a failure that names the
  offending token.
* **`Program.parse`** — the same for a text.
* **`Program.parseReport`** — the outcome for a host.

A refusal names the furthest token that some rule did not accept, which is where the best attempt
got stuck.  Whoever asks for something to be parsed says how many calls may be nested for it; a text
that needs more is refused as nested too deeply, and again the furthest token is named.
-/

namespace Klex

/-- How many calls may be nested by a host that has made none. -/
def callLimit : Nat := 1000

namespace Grammar

/-- Why a row of tokens is no program.  The index is that of the furthest token that was not accepted,
or the length of the row. -/
inductive Refusal where
  | tooDeep (index : Nat)
  /-- The token at the index, or the end if there is none, does not fit. -/
  | stuckAt (index : Nat)
  deriving DecidableEq, Repr

/-- What the run of the rule for a whole text says about the text. -/
def verdict : Reply Program × Trail → Except Refusal Program
  | (.accept p next, trail) =>
    if next.rest.isEmpty then .ok p else .error (.stuckAt (max trail.furthest next.index))
  | (.reject, trail) => .error (.stuckAt trail.furthest)
  | (.tooDeep, trail) => .error (.tooDeep trail.furthest)

/-- The program that a row of tokens is, where the rules may nest `room` calls. -/
def run (gap : Rule Unit) (reading : Reading) (room : Nat) (tokens : List Token) :
    Except Refusal Program :=
  verdict (program gap reading room (.start tokens) .empty)

/-- The offset just after a row of tokens. -/
def endOf (tokens : List Token) : Nat := (tokens.getLast?.map Token.stop).getD 0

/-- The offset of the token at an index, or of the end if there is none. -/
def offsetAt (tokens : List Token) (index : Nat) : Nat :=
  match tokens[index]? with
  | some t => t.pos
  | none => endOf tokens

/-- A refusal as a failure. -/
def Refusal.toFailure (tokens : List Token) : Refusal → Failure
  | .tooDeep index => ⟨.nestedTooDeeply, some (offsetAt tokens index)⟩
  | .stuckAt index =>
    match tokens[index]? with
    | some t => ⟨.unexpected t.text, some t.pos⟩
    | none => ⟨.unexpectedEnd, some (endOf tokens)⟩

/-- The calls that lead from one who asks for a text to be parsed to the rules: one that takes the text,
one that takes its tokens, and one that runs the rules. -/
def callsToRules : Nat := 3

/-- The most calls that a rule nests to look at a token or to make a node: as many as lead from an
expression to the first token of an operand in parentheses.  They are set apart from the calls of other
rules. -/
def callsOfRule : Nat := 8

/-- The room that is left for rules. -/
def roomForRules (room : Nat) : Nat := room - (callsToRules + callsOfRule)

end Grammar

/-- The program that a row of tokens is, in a way of reading and with room for so many nested calls of
rules. -/
def Program.ofTokensWithin (reading : Grammar.Reading) (room : Nat) (tokens : List Token) :
    Except Failure Program :=
  match Grammar.run Grammar.Rule.skip reading room tokens with
  | .ok p => .ok p
  | .error refusal => .error (refusal.toFailure tokens)

/-- The program that a row of tokens is. -/
def Program.ofTokens (room : Nat) (tokens : List Token) : Except Failure Program :=
  Program.ofTokensWithin .plain room tokens

/-- The program that a text is, for one who may nest `room` calls. -/
def Program.parse (room : Nat) (source : String) : Except Stop Program :=
  match tokenize .strict source with
  | .error stop => .error stop
  | .ok tokens =>
    match Program.ofTokens (Grammar.roomForRules room) tokens with
    | .ok p => .ok p
    | .error failure => .error (.failure failure)

/-- What became of parsing a text, without running it. -/
def Program.parseReport (room : Nat) (source : String) : Except Fault (Report Program) :=
  match Program.parse room source with
  | .ok p => .ok ⟨.ok p, []⟩
  | .error (.failure f) => .ok ⟨.error ⟨f, f.describe, f.pos, source⟩, []⟩
  | .error (.fault f) => .error f

end Klex
