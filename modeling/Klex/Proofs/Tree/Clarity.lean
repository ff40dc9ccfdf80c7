import Klex.Proofs.Tree.Rendering

/-!
# Trees that are read back as they are

Statements follow each other without a separator, and a keyword is a word like any other, so not
every tree is what the grammar makes of its tokens.

* **`Program.isClear`** — no name is a keyword; operands on the left and callees are basic; a condition
  with a second branch does not end its first branch with a condition that has none; and only the
  first statement of a row begins with a parenthesis.
* **`Expr.dangles`**, **`Stmt.dangles`** — the tree ends with a condition that has no second branch, so
  an `else` behind it would belong to that condition.
* **`Program.isClear_unplaced`** — offsets do not matter here.
-/

namespace Klex

/-- The texts that the grammar compares words with. -/
def keywords : List String := ["if", "else", "return", "function"]

/-- Whether the expression can be a left operand or a callee. -/
def Expr.isBasic : Expr → Bool
  | .literal _ _ | .name _ _ | .group _ _ => true
  | _ => false

/-- Whether the lexeme is an opening parenthesis. -/
def Lexeme.opensParen : Lexeme → Bool
  | .symbol .openParen => true
  | _ => false

/-- Whether the statement begins with a parenthesis. -/
def Stmt.opensParen (s : Stmt) : Bool := s.render.head?.any Lexeme.opensParen

mutual

/-- Whether the expression ends with a condition that has no second branch. -/
def Expr.dangles : Expr → Bool
  | .negate _ operand => operand.dangles
  | .binary _ _ _ right => right.dangles
  | .function _ _ body => body.dangles
  | .literal _ _ | .name _ _ | .group _ _ | .call _ _ _ => false

/-- Whether the statement ends with a condition that has no second branch. -/
def Stmt.dangles : Stmt → Bool
  | .expr e => e.dangles
  | .ret _ value => value.dangles
  | .assign _ _ value => value.dangles
  | .cond _ _ _ no => Stmt.danglesElse no
  | .block _ _ => false

/-- Whether a condition with this second branch ends so. -/
def Stmt.danglesElse : Option Stmt → Bool
  | none => true
  | some no => no.dangles

end

mutual

/-- Whether the expression and its parts meet the conditions. -/
def Expr.isClear : Expr → Bool
  | .literal _ _ => true
  | .name _ id => !keywords.contains id
  | .group _ inner => inner.isClear
  | .negate _ operand => operand.isClear
  | .binary _ _ left right => left.isBasic && left.isClear && right.isClear
  | .call _ callee args => callee.isBasic && callee.isClear && Expr.areClear args
  | .function _ params body => params.all (fun x => !keywords.contains x) && body.isClear

/-- Whether each of the expressions is clear. -/
def Expr.areClear : List Expr → Bool
  | [] => true
  | e :: es => e.isClear && Expr.areClear es

/-- Whether the statement and its parts meet the conditions. -/
def Stmt.isClear : Stmt → Bool
  | .expr e => e.isClear
  | .block _ body => Stmt.areClear body && body.tail.all (fun s => !s.opensParen)
  | .ret _ value => value.isClear
  | .assign _ target value => !keywords.contains target && value.isClear
  | .cond _ test yes no =>
    test.isClear && yes.isClear && !(no.isSome && yes.dangles) && Stmt.isClearElse no

/-- Whether a second branch is clear. -/
def Stmt.isClearElse : Option Stmt → Bool
  | none => true
  | some no => no.isClear

/-- Whether each of the statements is clear. -/
def Stmt.areClear : List Stmt → Bool
  | [] => true
  | s :: ss => s.isClear && Stmt.areClear ss

end

/-- Whether the program and its parts meet the conditions. -/
def Program.isClear (p : Program) : Bool :=
  Stmt.areClear p.statements && p.statements.tail.all (fun s => !s.opensParen)

/-! ### Offsets do not matter -/

mutual

theorem Expr.render_unplaced : ∀ e : Expr, e.unplaced.render = e.render
  | .literal _ _ | .name _ _ => rfl
  | .group _ inner => by rw [Expr.unplaced, Expr.render, Expr.render, inner.render_unplaced]
  | .negate _ operand => by rw [Expr.unplaced, Expr.render, Expr.render, operand.render_unplaced]
  | .binary _ _ left right => by
    rw [Expr.unplaced, Expr.render, Expr.render, left.render_unplaced, right.render_unplaced]
  | .call _ callee args => by
    rw [Expr.unplaced, Expr.render, Expr.render, callee.render_unplaced,
      Expr.renderAll_unplaced args]
  | .function _ _ body => by rw [Expr.unplaced, Expr.render, Expr.render, body.render_unplaced]

theorem Expr.renderAll_unplaced : ∀ es : List Expr,
    Expr.renderAll (Expr.unplacedAll es) = Expr.renderAll es
  | [] => rfl
  | e :: es => by
    rw [Expr.unplacedAll, Expr.renderAll, Expr.renderAll, e.render_unplaced,
      Expr.renderAll_unplaced es]

theorem Stmt.render_unplaced : ∀ s : Stmt, s.unplaced.render = s.render
  | .expr e => by rw [Stmt.unplaced, Stmt.render, Stmt.render, e.render_unplaced]
  | .block _ body => by
    rw [Stmt.unplaced, Stmt.render, Stmt.render, Stmt.renderAll_unplaced body]
  | .ret _ value => by rw [Stmt.unplaced, Stmt.render, Stmt.render, value.render_unplaced]
  | .assign _ _ value => by rw [Stmt.unplaced, Stmt.render, Stmt.render, value.render_unplaced]
  | .cond _ test yes none => by
    rw [Stmt.unplaced, Stmt.render, Stmt.render, test.render_unplaced, yes.render_unplaced]
    rfl
  | .cond _ test yes (some no) => by
    rw [Stmt.unplaced, Stmt.render, Stmt.render, test.render_unplaced, yes.render_unplaced,
      Stmt.unplacedElse, Stmt.renderElse, Stmt.renderElse, no.render_unplaced]

theorem Stmt.renderAll_unplaced : ∀ ss : List Stmt,
    Stmt.renderAll (Stmt.unplacedAll ss) = Stmt.renderAll ss
  | [] => rfl
  | s :: ss => by
    rw [Stmt.unplacedAll, Stmt.renderAll, Stmt.renderAll, s.render_unplaced,
      Stmt.renderAll_unplaced ss]

end

theorem Stmt.opensParen_unplaced (s : Stmt) : s.unplaced.opensParen = s.opensParen := by
  rw [Stmt.opensParen, Stmt.opensParen, s.render_unplaced]

theorem Expr.isBasic_unplaced (e : Expr) : e.unplaced.isBasic = e.isBasic := by
  cases e <;> rw [Expr.unplaced] <;> rfl

/-- Only the first statement may begin with a parenthesis, whatever the offsets. -/
theorem Stmt.tail_opensParen_unplaced (ss : List Stmt) :
    (Stmt.unplacedAll ss).tail.all (fun s => !s.opensParen)
      = ss.tail.all (fun s => !s.opensParen) := by
  rw [Stmt.unplacedAll_eq_map, ← List.map_tail, List.all_map]
  refine congrArg (ss.tail.all ·) (funext fun s => ?_)
  show (!s.unplaced.opensParen) = !s.opensParen
  rw [s.opensParen_unplaced]

mutual

theorem Expr.dangles_unplaced : ∀ e : Expr, e.unplaced.dangles = e.dangles
  | .literal _ _ | .name _ _ | .group _ _ | .call _ _ _ => by rw [Expr.unplaced]; rfl
  | .negate _ operand => by rw [Expr.unplaced, Expr.dangles, Expr.dangles, operand.dangles_unplaced]
  | .binary _ _ _ right => by rw [Expr.unplaced, Expr.dangles, Expr.dangles, right.dangles_unplaced]
  | .function _ _ body => by rw [Expr.unplaced, Expr.dangles, Expr.dangles, body.dangles_unplaced]

theorem Stmt.dangles_unplaced : ∀ s : Stmt, s.unplaced.dangles = s.dangles
  | .expr e => by rw [Stmt.unplaced, Stmt.dangles, Stmt.dangles, e.dangles_unplaced]
  | .block _ _ => by rw [Stmt.unplaced]; rfl
  | .ret _ value => by rw [Stmt.unplaced, Stmt.dangles, Stmt.dangles, value.dangles_unplaced]
  | .assign _ _ value => by rw [Stmt.unplaced, Stmt.dangles, Stmt.dangles, value.dangles_unplaced]
  | .cond _ _ _ none => by rw [Stmt.unplaced]; rfl
  | .cond _ _ _ (some no) => by
    rw [Stmt.unplaced, Stmt.dangles, Stmt.dangles, Stmt.unplacedElse, Stmt.danglesElse,
      Stmt.danglesElse, no.dangles_unplaced]

end

mutual

theorem Expr.isClear_unplaced : ∀ e : Expr, e.unplaced.isClear = e.isClear
  | .literal _ _ | .name _ _ => by rw [Expr.unplaced]; rfl
  | .group _ inner => by rw [Expr.unplaced, Expr.isClear, Expr.isClear, inner.isClear_unplaced]
  | .negate _ operand => by rw [Expr.unplaced, Expr.isClear, Expr.isClear, operand.isClear_unplaced]
  | .binary _ _ left right => by
    rw [Expr.unplaced, Expr.isClear, Expr.isClear, left.isBasic_unplaced, left.isClear_unplaced,
      right.isClear_unplaced]
  | .call _ callee args => by
    rw [Expr.unplaced, Expr.isClear, Expr.isClear, callee.isBasic_unplaced,
      callee.isClear_unplaced, Expr.areClear_unplaced args]
  | .function _ _ body => by rw [Expr.unplaced, Expr.isClear, Expr.isClear, body.isClear_unplaced]

theorem Expr.areClear_unplaced : ∀ es : List Expr,
    Expr.areClear (Expr.unplacedAll es) = Expr.areClear es
  | [] => rfl
  | e :: es => by
    rw [Expr.unplacedAll, Expr.areClear, Expr.areClear, e.isClear_unplaced,
      Expr.areClear_unplaced es]

theorem Stmt.isClear_unplaced : ∀ s : Stmt, s.unplaced.isClear = s.isClear
  | .expr e => by rw [Stmt.unplaced, Stmt.isClear, Stmt.isClear, e.isClear_unplaced]
  | .block _ body => by
    rw [Stmt.unplaced, Stmt.isClear, Stmt.isClear, Stmt.areClear_unplaced body,
      Stmt.tail_opensParen_unplaced]
  | .ret _ value => by rw [Stmt.unplaced, Stmt.isClear, Stmt.isClear, value.isClear_unplaced]
  | .assign _ _ value => by rw [Stmt.unplaced, Stmt.isClear, Stmt.isClear, value.isClear_unplaced]
  | .cond _ test yes none => by
    rw [Stmt.unplaced, Stmt.isClear, Stmt.isClear, test.isClear_unplaced, yes.isClear_unplaced]
    rfl
  | .cond _ test yes (some no) => by
    rw [Stmt.unplaced, Stmt.isClear, Stmt.isClear, test.isClear_unplaced, yes.isClear_unplaced,
      yes.dangles_unplaced, Stmt.unplacedElse, Stmt.isClearElse, Stmt.isClearElse,
      no.isClear_unplaced]
    rfl

theorem Stmt.areClear_unplaced : ∀ ss : List Stmt,
    Stmt.areClear (Stmt.unplacedAll ss) = Stmt.areClear ss
  | [] => rfl
  | s :: ss => by
    rw [Stmt.unplacedAll, Stmt.areClear, Stmt.areClear, s.isClear_unplaced,
      Stmt.areClear_unplaced ss]

end

theorem Program.isClear_unplaced (p : Program) : p.unplaced.isClear = p.isClear := by
  rw [Program.isClear, Program.isClear, Program.unplaced, Stmt.areClear_unplaced,
    Stmt.tail_opensParen_unplaced]

end Klex
