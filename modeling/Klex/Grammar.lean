import Klex.Grammar.Rule

/-!
# The grammar

Layout and comments may stand between any two symbols.  The rules, with alternatives in the order in
which they are tried:

    program    := statement*
    statement  := block | if | return | assignment | expression
    block      := '{' statement* '}'
    if         := "if" '(' expression ')' statement ("else" statement)?
    return     := "return" expression
    assignment := IDENTIFIER '=' expression
    expression := '!' expression
                | basic OPERATOR expression
                | "function" '(' parameters ')' statement
                | basic '(' arguments ')'
                | basic
    basic      := LITERAL | IDENTIFIER | '(' expression ')'

* **`Grammar.Rules`** — the two rules that the grammar goes through again and again.
* **`Grammar.rules`** — the rules that nest at most so many calls.
* **`Grammar.program`** — the rule for a whole text.

Keywords are identifiers, so `if`, `else`, `return` and `function` remain usable as names elsewhere.
The first three are told by their spelling where the grammar expects them, the last one by its name.
The left operand of an operator is only a basic expression, so `a - b - c` is `a - (b - c)`.

What stands between the symbols is passed over junction by junction, by the rule `gap`; a rule for
one token is only tried where a token of the program may stand.

A rule is a call of its own, and so are the steps that lead from one rule to the next.  How many steps
there are stands beside the rule that is asked for: `r.expression 2` is two calls away, so an operator
takes three calls in all, and a pair of parentheses takes seven.
-/

namespace Klex.Grammar

open Rule

/-- The rules that refer to each other, as they are reached by so many calls. -/
structure Rules where
  expression : Nat → Rule Expr
  statement : Nat → Rule Stmt

section

variable (gap : Rule Unit)

/-! ### Lists -/

/-- A comma and an item. -/
def afterComma {α : Type} (item : Rule α) : Rule α := do
  gap
  let _ ← token .comma
  gap
  item

/-- `[item] (',' item)* ')'`, and before the closing parenthesis one more comma if a trailing one is
allowed.  The first item may be missing. -/
def commaList {α : Type} (item : Rule α) (trailing : Bool) : Rule (List α) := do
  gap
  let first ← item.optional
  let more ← many (afterComma gap item)
  if trailing then
    let _ ← Rule.optional (do gap; token .comma)
  gap
  let _ ← token .closeParen
  return first.toList ++ more

/-- A parameter of a function literal. -/
def parameter : Rule String := read fun t => if t.kind = .identifier then some t.name else none

/-! ### Expressions -/

/-- A literal or a name. -/
def atom? (t : Token) : Option Expr :=
  if t.kind.isLiteral then some (.literal t.pos t.value)
  else if t.kind = .identifier then some (.name t.pos t.name)
  else none

variable (r : Rules)

/-- An expression in parentheses. -/
def group : Rule Expr := do
  let start ← token .openParen
  gap
  let inner ← r.expression 6
  gap
  let _ ← token .closeParen
  return .group start.pos inner

/-- A basic expression. -/
def basic : Rule Expr := read atom? <|> group gap r

/-- A rule that looks up what it came to at the same place before, and remembers what it comes to. -/
def remembered (p : Rule Expr) : Rule Expr := fun c t =>
  match t.basics[c.index]? with
  | some (some (e, next)) => (.accept e next, t)
  | some none => (.reject, t)
  | none =>
    match p c t with
    | (.accept e next, t') => (.accept e next, t'.remember c.index (some (e, next)))
    | (.reject, t') => (.reject, t'.remember c.index none)
    | (.tooDeep, t') => (.tooDeep, t')

/-- A negated expression. -/
def negation : Rule Expr := do
  let bang ← token .negate
  gap
  let operand ← r.expression 2
  return .negate bang.pos operand

/-- An operator and its right operand, after the left one. -/
def binaryRest (left : Expr) : Rule Expr := do
  gap
  let op ← token .operator
  gap
  let right ← r.expression 2
  return .binary left.pos op.name left right

/-- Parameters and body, after `function (`. -/
def functionRest (pos : Nat) : Rule Expr := do
  let params ← commaList gap parameter true
  let body ← r.statement 3
  return .function pos params body

/-- Arguments, after a callee and the opening parenthesis. -/
def argumentsRest (callee : Expr) : Rule Expr := do
  let args ← commaList gap (r.expression 4) false
  return .call callee.pos callee args

/-- A function literal or a call, after what stands before its opening parenthesis. -/
def callRest (callee : Expr) : Rule Expr := do
  gap
  let _ ← token .openParen
  match callee with
  | .name pos "function" => functionRest gap r pos
  | _ => argumentsRest gap r callee

/-- An expression, given the rule for basic ones. -/
def expressionFrom (basic : Rule Expr) : Rule Expr :=
  negation gap r <|> (do
    let left ← basic
    binaryRest gap r left <|> callRest gap r left <|> pure left)

/-! ### Statements -/

/-- As many statements as there are, and the offset of the token that they start at. -/
def statements (statement : Rule Stmt) : Rule (Option Nat × List Stmt) := do
  gap
  let pos ← pos?
  let body ← many statement
  return (pos, body)

/-- Statements in curly brackets. -/
def block : Rule Stmt := do
  let _ ← token .openCurly
  let body ← statements gap (r.statement 4)
  gap
  let _ ← token .closeCurly
  return .block body.1 body.2

/-- The second branch of a condition.  Once the keyword is there, the branch has to follow. -/
def elseBranch : Rule (Option Stmt) := do
  match ← Rule.optional (do gap; keyword "else") with
  | none => return none
  | some _ => return some (← r.statement 2)

/-- A condition. -/
def condition : Rule Stmt := do
  let start ← keyword "if"
  gap
  let _ ← token .openParen
  gap
  let test ← r.expression 2
  gap
  let _ ← token .closeParen
  let yes ← r.statement 2
  let no ← elseBranch gap r
  return .cond start.pos test yes no

/-- A statement that returns a value. -/
def returning : Rule Stmt := do
  let start ← keyword "return"
  gap
  let value ← r.expression 2
  return .ret start.pos value

/-- An assignment. -/
def assignment : Rule Stmt := do
  let target ← token .identifier
  gap
  let _ ← token .assign
  gap
  let value ← r.expression 2
  return .assign target.pos target.name value

/-- A statement, from its first token to its last. -/
def bareStatement : Rule Stmt :=
  block gap r <|> condition gap r <|> returning gap r <|> assignment gap r
    <|> (do return .expr (← r.expression 1))

/-- A statement, with the layout before and after it. -/
def statementFrom : Rule Stmt := do
  gap
  let s ← bareStatement gap r
  gap
  return s

/-- A whole text. -/
def text : Rule Program := do
  let body ← statements gap (r.statement 2)
  gap
  return ⟨body.1, body.2⟩

end

/-! ### Closing the circle -/

/-- How basic expressions are read: afresh each time, or once at each place. -/
inductive Reading where
  | plain
  | remembering
  deriving DecidableEq, Repr

/-- The rule for basic expressions in a way of reading. -/
def Reading.basic (reading : Reading) (gap : Rule Unit) (r : Rules) : Rule Expr :=
  match reading with
  | .plain => Grammar.basic gap r
  | .remembering => remembered (Grammar.basic gap r)

/-- Rules one call above given ones.  Reached at once they are the two new rules; of the calls that lead
to them, each takes one of the room that the given rules have. -/
def Rules.push (r : Rules) (e : Rule Expr) (s : Rule Stmt) : Rules where
  expression
    | 0 => e
    | calls + 1 => r.expression calls
  statement
    | 0 => s
    | calls + 1 => r.statement calls

/-- Rules one call above given ones, which they ask for. -/
def Rules.above (gap : Rule Unit) (reading : Reading) (r : Rules) : Rules :=
  r.push (expressionFrom gap r (reading.basic gap r)) (statementFrom gap r)

/-- Rules that nest at most `room` calls. -/
def rules (gap : Rule Unit) (reading : Reading) : Nat → Rules
  | 0 => ⟨fun _ => tooDeep, fun _ => tooDeep⟩
  | room + 1 => (rules gap reading room).above gap reading

/-- The rule for a whole text, where at most `room` calls may be nested. -/
def program (gap : Rule Unit) (reading : Reading) (room : Nat) : Rule Program :=
  text gap (rules gap reading room)

end Klex.Grammar
