import Klex.Grammar

/-!
# Derivations

Which tokens a tree stands for, said without the rules of the grammar.

* **`Expr.Yields`**, **`Stmt.Yields`**, **`Program.Yields`** — the tree is read off the tokens: each
  token has its one place in the tree, in order, and each node has the offset of its first token.
* **`Sequence`**, **`Separated`**, **`Listed`** — rows of items: side by side, with commas between
  them (the first item may be missing), and the same with one more comma allowed at the end.
* **`Program.Yields.known`** — no token of an unknown kind, and no layout, has a place in a tree.

A condition whose second branch does not come off is read again as a call and what follows it; that
is a derivation like any other, so no case is made of it.
-/

namespace Klex

/-! ### Rows of items -/

namespace Grammar

variable {α : Type}

/-- Items side by side. -/
inductive Sequence (D : α → List Token → Prop) : List α → List Token → Prop
  | nil : Sequence D [] []
  | cons {a : α} {as : List α} {ts us : List Token} :
      D a ts → Sequence D as us → Sequence D (a :: as) (ts ++ us)

/-- A comma and an item. -/
inductive AfterComma (D : α → List Token → Prop) : α → List Token → Prop
  | mk {comma : Token} {a : α} {ts : List Token} :
      comma.kind = .comma → D a ts → AfterComma D a (comma :: ts)

theorem AfterComma.ne_nil {D : α → List Token → Prop} {a : α} {ts : List Token}
    (h : AfterComma D a ts) : ts ≠ [] := by
  cases h with
  | mk => simp

/-- `[item] (',' item)*` -/
inductive Separated (D : α → List Token → Prop) : List α → List Token → Prop
  | full {a : α} {as : List α} {ts us : List Token} :
      D a ts → Sequence (AfterComma D) as us → Separated D (a :: as) (ts ++ us)
  /-- The first item may be missing, before a comma or altogether. -/
  | bare {as : List α} {us : List Token} : Sequence (AfterComma D) as us → Separated D as us

/-- `[item] (',' item)*`, and one more comma if a trailing one is allowed. -/
inductive Listed (D : α → List Token → Prop) : Bool → List α → List Token → Prop
  | plain {trailing : Bool} {as : List α} {ts : List Token} :
      Separated D as ts → Listed D trailing as ts
  | trailing {comma : Token} {as : List α} {ts : List Token} :
      Separated D as ts → comma.kind = .comma → Listed D true as (ts ++ [comma])

section

variable {D E : α → List Token → Prop} {as : List α} {ts : List Token}

theorem AfterComma.imp {a : α} (hD : ∀ {a ts}, D a ts → E a ts) (h : AfterComma D a ts) :
    AfterComma E a ts := by
  cases h with
  | mk hc ha => exact .mk hc (hD ha)

theorem Sequence.imp (hD : ∀ {a ts}, D a ts → E a ts) (h : Sequence D as ts) :
    Sequence E as ts := by
  induction h with
  | nil => exact .nil
  | cons ha _ ih => exact .cons (hD ha) ih

theorem Separated.imp (hD : ∀ {a ts}, D a ts → E a ts) (h : Separated D as ts) :
    Separated E as ts := by
  cases h with
  | full ha hs => exact .full (hD ha) (hs.imp (AfterComma.imp hD))
  | bare hs => exact .bare (hs.imp (AfterComma.imp hD))

theorem Listed.imp {trailing : Bool} (hD : ∀ {a ts}, D a ts → E a ts)
    (h : Listed D trailing as ts) : Listed E trailing as ts := by
  cases h with
  | plain hs => exact .plain (hs.imp hD)
  | trailing hs hc => exact .trailing (hs.imp hD) hc

end

end Grammar

/-- A token that stands for its own text. -/
def Token.spelled (kind : Kind) (text : String) (pos : Nat) : Token :=
  ⟨kind, text, pos, .text text, none, true, fun _ => rfl⟩

/-- A token of a class without names. -/
def Token.unnamed (kind : Kind) (text : String) (pos : Nat) (value : Literal)
    (h : kind.isNamed = false) : Token :=
  ⟨kind, text, pos, value, none, true, Kind.unnamed h⟩

/-- A stretch of blanks. -/
def Token.blank (text : String) (pos : Nat) : Token := .unnamed .whitespace text pos .null rfl

/-- A comment. -/
def Token.comment (text : String) (pos : Nat) : Token := .unnamed .comment text pos .null rfl

/-- The token is an identifier that is spelled so. -/
def Token.IsWord (t : Token) (text : String) : Prop := t.kind = .identifier ∧ t.text = text

/-- The token is an identifier that stands for the name. -/
def Token.IsName (t : Token) (name : String) : Prop := t.kind = .identifier ∧ t.value = .text name

/-- The token is an operator that stands for the symbol. -/
def Token.IsOperator (t : Token) (symbol : String) : Prop :=
  t.kind = .operator ∧ t.value = .text symbol

theorem Token.kind_ne {t : Token} {kind other : Kind} (h : t.kind = kind) (hk : kind ≠ other) :
    t.kind ≠ other := by
  rw [h]
  exact hk

theorem Token.isName {t : Token} (h : t.kind = .identifier) : t.IsName t.name :=
  ⟨h, Token.value_eq_name (by rw [h]; rfl)⟩

theorem Token.isOperator {t : Token} (h : t.kind = .operator) : t.IsOperator t.name :=
  ⟨h, Token.value_eq_name (by rw [h]; rfl)⟩

theorem Token.IsName.name_eq {t : Token} {name : String} (h : t.IsName name) : t.name = name := by
  rw [Token.name, h.2]
  rfl

theorem Token.IsOperator.name_eq {t : Token} {symbol : String} (h : t.IsOperator symbol) :
    t.name = symbol := by
  rw [Token.name, h.2]
  rfl

/-- A name stands for one identifier. -/
inductive Grammar.Named : String → List Token → Prop
  | mk {t : Token} {name : String} : t.IsName name → Named name [t]

/-! ### Trees -/

open Grammar

mutual

/-- The tokens that an expression stands for. -/
inductive Expr.Yields : Expr → List Token → Prop
  | literal {t : Token} : t.kind.isLiteral → Expr.Yields (.literal t.pos t.value) [t]
  | name {t : Token} {id : String} : t.IsName id → Expr.Yields (.name t.pos id) [t]
  | group {start stop : Token} {e : Expr} {ts : List Token} :
      start.kind = .openParen → Expr.Yields e ts → stop.kind = .closeParen →
      Expr.Yields (.group start.pos e) (start :: (ts ++ [stop]))
  | negate {bang : Token} {e : Expr} {ts : List Token} :
      bang.kind = .negate → Expr.Yields e ts → Expr.Yields (.negate bang.pos e) (bang :: ts)
  | binary {op : Token} {symbol : String} {left right : Expr} {ts us : List Token} :
      Expr.Yields left ts → op.IsOperator symbol → Expr.Yields right us →
      Expr.Yields (.binary left.pos symbol left right) (ts ++ op :: us)
  | call {start stop : Token} {callee : Expr} {args : List Expr} {ts us : List Token} :
      Expr.Yields callee ts → start.kind = .openParen → Separated Expr.Yields args us →
      stop.kind = .closeParen →
      Expr.Yields (.call callee.pos callee args) (ts ++ start :: (us ++ [stop]))
  | function {word start stop : Token} {params : List String} {body : Stmt} {ts us : List Token} :
      word.IsName "function" → start.kind = .openParen → Listed Named true params ts →
      stop.kind = .closeParen → Stmt.Yields body us →
      Expr.Yields (.function word.pos params body) (word :: start :: (ts ++ stop :: us))

/-- The tokens that a statement stands for. -/
inductive Stmt.Yields : Stmt → List Token → Prop
  | expr {e : Expr} {ts : List Token} : Expr.Yields e ts → Stmt.Yields (.expr e) ts
  | block {start stop : Token} {body : List Stmt} {ts : List Token} :
      start.kind = .openCurly → Sequence Stmt.Yields body ts → stop.kind = .closeCurly →
      Stmt.Yields (.block ((ts ++ [stop]).head?.map Token.pos) body) (start :: (ts ++ [stop]))
  | ret {word : Token} {e : Expr} {ts : List Token} :
      word.IsWord "return" → Expr.Yields e ts → Stmt.Yields (.ret word.pos e) (word :: ts)
  | assign {target eq : Token} {name : String} {e : Expr} {ts : List Token} :
      target.IsName name → eq.kind = .assign → Expr.Yields e ts →
      Stmt.Yields (.assign target.pos name e) (target :: eq :: ts)
  | cond {word start stop : Token} {test : Expr} {yes : Stmt} {ts us : List Token} :
      word.IsWord "if" → start.kind = .openParen → Expr.Yields test ts → stop.kind = .closeParen →
      Stmt.Yields yes us →
      Stmt.Yields (.cond word.pos test yes none) (word :: start :: (ts ++ stop :: us))
  | condElse {word start stop other : Token} {test : Expr} {yes no : Stmt}
      {ts us vs : List Token} :
      word.IsWord "if" → start.kind = .openParen → Expr.Yields test ts → stop.kind = .closeParen →
      Stmt.Yields yes us → other.IsWord "else" → Stmt.Yields no vs →
      Stmt.Yields (.cond word.pos test yes (some no))
        (word :: start :: (ts ++ stop :: (us ++ other :: vs)))

end

/-- The tokens that a program stands for. -/
structure Program.Yields (p : Program) (ts : List Token) : Prop where
  statements : Sequence Stmt.Yields p.statements ts
  pos : p.pos = ts.head?.map Token.pos

theorem Expr.Yields.ne_nil {e : Expr} {ts : List Token} (h : e.Yields ts) : ts ≠ [] := by
  cases h <;> simp

theorem Stmt.Yields.ne_nil {s : Stmt} {ts : List Token} (h : s.Yields ts) : ts ≠ [] := by
  cases h with
  | expr he => exact he.ne_nil
  | _ => simp

/-! ### Tokens without a place -/

/-- The kinds of tokens that have a place in a tree. -/
def Grammar.hasPlace : Kind → Bool
  | .whitespace | .comment | .unknown | .other _ => false
  | _ => true

/-- Every token of the row is of a kind that has a place in a tree. -/
def Grammar.Known (ts : List Token) : Prop := ∀ t ∈ ts, hasPlace t.kind = true

section

variable {ts us : List Token} {t : Token}

theorem Grammar.Known.nil : Known [] := by
  intro t ht
  simp at ht

theorem Grammar.Known.cons (ht : hasPlace t.kind = true) (h : Known ts) : Known (t :: ts) := by
  intro x hx
  rcases List.mem_cons.1 hx with rfl | hx
  · exact ht
  · exact h x hx

theorem Grammar.Known.append (h : Known ts) (h' : Known us) : Known (ts ++ us) := by
  intro x hx
  rcases List.mem_append.1 hx with hx | hx
  · exact h x hx
  · exact h' x hx

theorem Grammar.Known.snoc (h : Known ts) (ht : hasPlace t.kind = true) : Known (ts ++ [t]) :=
  h.append (.cons ht .nil)

theorem Token.known_of_kind {kind : Kind} (h : t.kind = kind) (hk : hasPlace kind = true) :
    hasPlace t.kind = true := by
  rw [h]
  exact hk

theorem Token.known_of_isLiteral (h : t.kind.isLiteral = true) : hasPlace t.kind = true := by
  rcases hk : t.kind <;> simp_all [Kind.isLiteral, hasPlace]

theorem Token.IsWord.known {text : String} (h : t.IsWord text) : hasPlace t.kind = true :=
  Token.known_of_kind h.1 rfl

theorem Token.IsName.known {name : String} (h : t.IsName name) : hasPlace t.kind = true :=
  Token.known_of_kind h.1 rfl

theorem Token.IsOperator.known {symbol : String} (h : t.IsOperator symbol) :
    hasPlace t.kind = true :=
  Token.known_of_kind h.1 rfl

theorem Grammar.Named.known {name : String} (h : Named name ts) : Known ts := by
  cases h with
  | mk hw => exact .cons hw.known .nil

end

theorem Grammar.Named.known_further {names : List String} {ts : List Token} :
    Sequence (AfterComma Named) names ts → Known ts
  | .nil => .nil
  | .cons (.mk hc hn) hs =>
    .cons (Token.known_of_kind hc rfl) (hn.known.append (Named.known_further hs))

theorem Grammar.Named.known_listed {trailing : Bool} {names : List String} {ts : List Token}
    (h : Listed Named trailing names ts) : Known ts := by
  have hsep : ∀ {ts}, Separated Named names ts → Known ts := by
    intro ts h
    cases h with
    | full hn hs => exact hn.known.append (Named.known_further hs)
    | bare hs => exact Named.known_further hs
  cases h with
  | plain hs => exact hsep hs
  | trailing hs hc => exact (hsep hs).snoc (Token.known_of_kind hc rfl)

-- The recursion is on the derivation; rows of arguments and of statements are gone through beside it.
mutual

theorem Expr.Yields.known {e : Expr} {ts : List Token} : e.Yields ts → Known ts
  | .literal h => .cons (Token.known_of_isLiteral h) .nil
  | .name h => .cons h.known .nil
  | .group ho he hc =>
    .cons (Token.known_of_kind ho rfl) (he.known.snoc (Token.known_of_kind hc rfl))
  | .negate hb he => .cons (Token.known_of_kind hb rfl) he.known
  | .binary hl ho hr => hl.known.append (.cons ho.known hr.known)
  | .call hf ho ha hc =>
    hf.known.append (.cons (Token.known_of_kind ho rfl)
      ((Expr.Yields.known_separated ha).snoc (Token.known_of_kind hc rfl)))
  | .function hw ho hp hc hb =>
    .cons hw.known (.cons (Token.known_of_kind ho rfl)
      ((Named.known_listed hp).append (.cons (Token.known_of_kind hc rfl) hb.known)))

theorem Expr.Yields.known_separated {args : List Expr} {ts : List Token} :
    Separated Expr.Yields args ts → Known ts
  | .full he hs => he.known.append (Expr.Yields.known_further hs)
  | .bare hs => Expr.Yields.known_further hs

theorem Expr.Yields.known_further {args : List Expr} {ts : List Token} :
    Sequence (AfterComma Expr.Yields) args ts → Known ts
  | .nil => .nil
  | .cons (.mk hc he) hs =>
    .cons (Token.known_of_kind hc rfl) (he.known.append (Expr.Yields.known_further hs))

theorem Stmt.Yields.known {s : Stmt} {ts : List Token} : s.Yields ts → Known ts
  | .expr he => he.known
  | .block ho hs hc =>
    .cons (Token.known_of_kind ho rfl)
      ((Stmt.Yields.known_sequence hs).snoc (Token.known_of_kind hc rfl))
  | .ret hw he => .cons hw.known he.known
  | .assign hx hq he =>
    .cons hx.known (.cons (Token.known_of_kind hq rfl) he.known)
  | .cond hw ho ht hc hy =>
    .cons hw.known (.cons (Token.known_of_kind ho rfl)
      (ht.known.append (.cons (Token.known_of_kind hc rfl) hy.known)))
  | .condElse hw ho ht hc hy hl hn =>
    .cons hw.known (.cons (Token.known_of_kind ho rfl)
      (ht.known.append (.cons (Token.known_of_kind hc rfl)
        (hy.known.append (.cons hl.known hn.known)))))

theorem Stmt.Yields.known_sequence {body : List Stmt} {ts : List Token} :
    Sequence Stmt.Yields body ts → Known ts
  | .nil => .nil
  | .cons h hs => h.known.append (Stmt.Yields.known_sequence hs)

end

/-- **No token of an unknown kind, and no layout, has a place in a tree.** -/
theorem Program.Yields.known {p : Program} {ts : List Token} (h : p.Yields ts) : Known ts :=
  Stmt.Yields.known_sequence h.statements

end Klex
