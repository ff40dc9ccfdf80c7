import Klex.Proofs.Grammar.Derivation

/-!
# The nodes of a tree

* **`Expr.nodes`**, **`Stmt.nodes`**, **`Program.nodes`** — every expression in a tree, wherever it
  stands, the bodies of function literals included.
* **`Derived`** — each expression of a list is read off some stretch of a row of tokens.
* **`Program.Yields.nodes`** — **every node of a program is read off a stretch of its tokens.**  So what
  holds of all tokens of a text holds of all literals and operators of its tree
  (`Derived.literal`, `Derived.operator`).
-/

namespace Klex

open Grammar

mutual

/-- The expression and every expression in it. -/
def Expr.nodes : Expr → List Expr
  | .literal pos value => [.literal pos value]
  | .name pos id => [.name pos id]
  | .group pos inner => .group pos inner :: inner.nodes
  | .negate pos operand => .negate pos operand :: operand.nodes
  | .binary pos op left right => .binary pos op left right :: (left.nodes ++ right.nodes)
  | .call pos callee args => .call pos callee args :: (callee.nodes ++ Expr.nodesAll args)
  | .function pos params body => .function pos params body :: body.nodes

/-- Every expression in a row of expressions. -/
def Expr.nodesAll : List Expr → List Expr
  | [] => []
  | e :: es => e.nodes ++ Expr.nodesAll es

/-- Every expression in the statement. -/
def Stmt.nodes : Stmt → List Expr
  | .expr e => e.nodes
  | .block _ body => Stmt.nodesAll body
  | .ret _ value => value.nodes
  | .assign _ _ value => value.nodes
  | .cond _ test yes no => test.nodes ++ (yes.nodes ++ Stmt.nodesElse no)

/-- Every expression in a second branch. -/
def Stmt.nodesElse : Option Stmt → List Expr
  | none => []
  | some no => no.nodes

/-- Every expression in a row of statements. -/
def Stmt.nodesAll : List Stmt → List Expr
  | [] => []
  | s :: ss => s.nodes ++ Stmt.nodesAll ss

end

-- proofs about nodes go by these equations, here and later
attribute [local simp] Expr.nodes Expr.nodesAll Stmt.nodes Stmt.nodesElse Stmt.nodesAll

/-- Every expression in the program. -/
def Program.nodes (p : Program) : List Expr := Stmt.nodesAll p.statements

/-! ### Nodes and tokens -/

namespace Grammar

/-- Each of the expressions is read off some stretch of the row of tokens. -/
def Derived (ts : List Token) (xs : List Expr) : Prop := ∀ x ∈ xs, ∃ us, us <:+: ts ∧ x.Yields us

namespace Derived

variable {ts us : List Token} {x : Expr} {xs ys : List Expr}

theorem nil : Derived ts [] := by
  intro x hx
  simp at hx

theorem cons (hx : x.Yields ts) (h : Derived ts xs) : Derived ts (x :: xs) := by
  intro y hy
  rcases List.mem_cons.1 hy with rfl | hy
  · exact ⟨ts, List.infix_rfl, hx⟩
  · exact h y hy

theorem append (h : Derived ts xs) (h' : Derived ts ys) : Derived ts (xs ++ ys) := by
  intro y hy
  rcases List.mem_append.1 hy with hy | hy
  · exact h y hy
  · exact h' y hy

/-- More tokens on either side do no harm. -/
theorem widen (h : Derived ts xs) (before behind : List Token) :
    Derived (before ++ (ts ++ behind)) xs := by
  intro y hy
  obtain ⟨vs, hvs, hyields⟩ := h y hy
  refine ⟨vs, hvs.trans ⟨before, behind, ?_⟩, hyields⟩
  rw [List.append_assoc]

theorem left (h : Derived ts xs) (behind : List Token) : Derived (ts ++ behind) xs :=
  h.widen [] behind

theorem right (h : Derived ts xs) (before : List Token) : Derived (before ++ ts) xs := by
  have hwide := h.widen before []
  rwa [List.append_nil] at hwide

/-- A literal has the value of a token. -/
theorem literal {pos : Nat} {value : Literal} (h : Derived ts xs)
    (hx : Expr.literal pos value ∈ xs) : ∃ t ∈ ts, t.kind.isLiteral = true ∧ t.value = value := by
  obtain ⟨us, hus, hyields⟩ := h _ hx
  cases hyields with
  | @literal t hkind => exact ⟨t, hus.subset List.mem_cons_self, hkind, rfl⟩

/-- An operator is what a token stands for. -/
theorem operator {pos : Nat} {op : String} {left right : Expr} (h : Derived ts xs)
    (hx : Expr.binary pos op left right ∈ xs) : ∃ t ∈ ts, t.IsOperator op := by
  obtain ⟨us, hus, hyields⟩ := h _ hx
  cases hyields with
  | @binary t _ _ _ _ _ _ hop _ =>
    exact ⟨t, hus.subset (List.mem_append_right _ List.mem_cons_self), hop⟩

end Derived

end Grammar

-- The recursion is on the derivation; each part of a tree is widened to the tokens of the whole.
mutual

theorem Expr.Yields.nodes {e : Expr} {ts : List Token} : e.Yields ts → Derived ts e.nodes
  | .literal h => .cons (.literal h) .nil
  | .name h => .cons (.name h) .nil
  | .group ho he hc => .cons (.group ho he hc) (he.nodes.widen [_] [_])
  | .negate hb he => .cons (.negate hb he) (he.nodes.right [_])
  | .binary hl ho hr =>
    .cons (.binary hl ho hr) ((hl.nodes.left _).append ((hr.nodes.right [_]).right _))
  | .call hf ho ha hc =>
    .cons (.call hf ho ha hc) ((hf.nodes.left _).append
      (((Expr.Yields.nodes_separated ha).widen [_] [_]).right _))
  | .function hw ho hp hc hb =>
    .cons (.function hw ho hp hc hb) (((hb.nodes.right [_]).right _).right [_, _])

theorem Expr.Yields.nodes_separated {args : List Expr} {ts : List Token} :
    Separated Expr.Yields args ts → Derived ts (Expr.nodesAll args)
  | .full he hs => (he.nodes.left _).append ((Expr.Yields.nodes_further hs).right _)
  | .bare hs => Expr.Yields.nodes_further hs

theorem Expr.Yields.nodes_further {args : List Expr} {ts : List Token} :
    Sequence (AfterComma Expr.Yields) args ts → Derived ts (Expr.nodesAll args)
  | .nil => .nil
  | .cons (.mk _ he) hs =>
    (he.nodes.widen [_] _).append (((Expr.Yields.nodes_further hs).right _).right [_])

theorem Stmt.Yields.nodes {s : Stmt} {ts : List Token} : s.Yields ts → Derived ts s.nodes
  | .expr he => he.nodes
  | .block _ hs _ => (Stmt.Yields.nodes_sequence hs).widen [_] [_]
  | .ret _ he => he.nodes.right [_]
  | .assign _ _ he => he.nodes.right [_, _]
  | .cond _ _ ht _ hy =>
    (ht.nodes.widen [_, _] _).append
      ((((hy.nodes.right [_]).right _).right [_, _]).append .nil)
  | .condElse _ _ ht _ hy _ hn =>
    (ht.nodes.widen [_, _] _).append
      (((hy.nodes.widen [_] _).right _).right [_, _] |>.append
        (((hn.nodes.right [_]).right _).right [_] |>.right _ |>.right [_, _]))

theorem Stmt.Yields.nodes_sequence {body : List Stmt} {ts : List Token} :
    Sequence Stmt.Yields body ts → Derived ts (Stmt.nodesAll body)
  | .nil => .nil
  | .cons h hs => (h.nodes.left _).append ((Stmt.Yields.nodes_sequence hs).right _)

end

/-- **Every node of a program is read off a stretch of its tokens.** -/
theorem Program.Yields.nodes {p : Program} {ts : List Token} (h : p.Yields ts) :
    Derived ts p.nodes :=
  Stmt.Yields.nodes_sequence h.statements

end Klex
