import Klex.Numeric
import Klex.Tree

/-!
# Likeness of trees

* **`Program.alike`** — whether two programs are the same tree, whatever the offsets of their nodes.
  Literals are compared as numbers across types, so `1`, `1.0` and `true` are alike.
-/

namespace Klex

mutual

/-- Likeness of expressions. -/
def Expr.alike : Expr → Expr → Bool
  | .literal _ a, .literal _ b => a.alike b
  | .name _ a, .name _ b => a == b
  | .group _ a, .group _ b => a.alike b
  | .negate _ a, .negate _ b => a.alike b
  | .binary _ op a b, .binary _ op' a' b' => a.alike a' && b.alike b' && op == op'
  | .call _ f args, .call _ f' args' => f.alike f' && Expr.alikeAll args args'
  | .function _ params body, .function _ params' body' => params == params' && body.alike body'
  | _, _ => false

/-- Likeness of rows of expressions. -/
def Expr.alikeAll : List Expr → List Expr → Bool
  | [], [] => true
  | a :: as, b :: bs => a.alike b && Expr.alikeAll as bs
  | _, _ => false

/-- Likeness of statements. -/
def Stmt.alike : Stmt → Stmt → Bool
  | .expr a, .expr b => a.alike b
  | .block _ a, .block _ b => Stmt.alikeAll a b
  | .ret _ a, .ret _ b => a.alike b
  | .assign _ x a, .assign _ y b => x == y && a.alike b
  | .cond _ t a b, .cond _ t' a' b' => t.alike t' && a.alike a' && Stmt.alikeElse b b'
  | _, _ => false

/-- Likeness of optional branches. -/
def Stmt.alikeElse : Option Stmt → Option Stmt → Bool
  | none, none => true
  | some a, some b => a.alike b
  | _, _ => false

/-- Likeness of rows of statements. -/
def Stmt.alikeAll : List Stmt → List Stmt → Bool
  | [], [] => true
  | a :: as, b :: bs => a.alike b && Stmt.alikeAll as bs
  | _, _ => false

end

/-- Likeness of programs. -/
def Program.alike (p q : Program) : Bool := Stmt.alikeAll p.statements q.statements

end Klex
