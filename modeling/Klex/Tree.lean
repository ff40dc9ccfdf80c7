import Klex.Literal

/-!
# Syntax trees

What a source text means to the evaluator.

* **`Expr`**, **`Stmt`** — expressions and statements; a function literal has a statement as body,
  and an expression can stand as a statement.
* **`Program`** — the statements of a whole text.
* **`Expr.pos`**, **`Stmt.pos`** — the offset of the first token, which positions in messages go by.
-/

namespace Klex

mutual

/-- An expression.  Every node carries the offset of its first token. -/
inductive Expr where
  | literal (pos : Nat) (value : Literal)
  | name (pos : Nat) (id : String)
  /-- An expression in parentheses. -/
  | group (pos : Nat) (inner : Expr)
  | negate (pos : Nat) (operand : Expr)
  /-- Operators have no precedence; a chain of them groups to the right. -/
  | binary (pos : Nat) (op : String) (left right : Expr)
  | call (pos : Nat) (callee : Expr) (args : List Expr)
  | function (pos : Nat) (params : List String) (body : Stmt)

/-- A statement. -/
inductive Stmt where
  | expr (e : Expr)
  /-- Statements in curly brackets.  The offset is that of the first token after the opening
  bracket. -/
  | block (pos : Option Nat) (body : List Stmt)
  | ret (pos : Nat) (value : Expr)
  | assign (pos : Nat) (target : String) (value : Expr)
  | cond (pos : Nat) (test : Expr) (yes : Stmt) (no : Option Stmt)

end

/-- A whole text.  The offset is that of its first token, if it has one that is not trivia. -/
structure Program where
  pos : Option Nat
  statements : List Stmt

/-- The offset of an expression. -/
def Expr.pos : Expr → Nat
  | literal pos _ | name pos _ | group pos _ | negate pos _ | binary pos _ _ _ | call pos _ _
  | function pos _ _ => pos

/-- The offset of a statement. -/
def Stmt.pos : Stmt → Option Nat
  | expr e => some e.pos
  | block pos _ => pos
  | ret pos _ | assign pos _ _ | cond pos _ _ _ => some pos

end Klex
