import Klex.Proofs.Grammar.Progress

/-!
# Relations that the grammar respects

To compare two runs of the grammar it is enough to compare them combinator by combinator.

* **`Congruence`** — a relation between rules that every way of making rules respects.  Repetition
  is asked for only where the left rule reads something each time.
* **`Congruence.expressionFrom`**, **`Congruence.statementFrom`**, **`Congruence.text`** — such a
  relation carries over from the rules that the grammar goes through to the rules one level above.
* **`Congruence.rules`** — so it holds with any room, of rules with the same room on both sides.

The grammar is gone through here once for all relations.
-/

namespace Klex.Grammar

open Rule

/-- A relation between rules that every way of making rules respects. -/
structure Congruence (row : List Token) (R : {α : Type} → Rule α → Rule α → Prop) : Prop where
  pure : ∀ {α : Type} (a : α), R (pure a) (pure a)
  read : ∀ {α : Type} (f : Token → Option α), R (read f) (read f)
  bind : ∀ {α β : Type} {p q : Rule α} {f g : α → Rule β}, R p q → (∀ a, R (f a) (g a)) →
    R (p >>= f) (q >>= g)
  orElse : ∀ {α : Type} {p q p' q' : Rule α}, R p q → R p' q' → R (p <|> p') (q <|> q')
  optional : ∀ {α : Type} {p q : Rule α}, R p q → R p.optional q.optional
  many : ∀ {α : Type} {p q : Rule α}, Steady row 1 p → R p q → R (many p) (many q)
  placed : ∀ {α : Type} {p q : Rule α}, Steady row 1 p → R p q → R (placed p) (placed q)

/-- Repetition up to a number of times, for a relation that the simplest combinators respect. -/
theorem manyUpTo_congr {R : {α : Type} → Rule α → Rule α → Prop}
    (hpure : ∀ {α : Type} (a : α), R (pure a) (pure a))
    (hbind : ∀ {α β : Type} {p q : Rule α} {f g : α → Rule β}, R p q → (∀ a, R (f a) (g a)) →
      R (p >>= f) (q >>= g))
    (hoptional : ∀ {α : Type} {p q : Rule α}, R p q → R p.optional q.optional)
    {α : Type} {p q : Rule α} (h : R p q) (n : Nat) : R (manyUpTo p n) (manyUpTo q n) := by
  induction n with
  | zero => exact hpure []
  | succ n ih =>
    rw [manyUpTo_succ, manyUpTo_succ]
    refine hbind (hoptional h) fun first => ?_
    cases first with
    | none => exact hpure []
    | some a => exact hbind ih fun more => hpure _

namespace Congruence

variable {row : List Token} {R : {α : Type} → Rule α → Rule α → Prop} {gap gap' : Rule Unit}
  {r s : Rules}

/-! ### One level of the grammar -/

theorem afterComma (hR : Congruence row R) (hg : R gap gap') {α : Type} {p q : Rule α} (h : R p q) :
    R (Grammar.afterComma gap p) (Grammar.afterComma gap' q) :=
  hR.bind hg fun _ => hR.bind (hR.read _) fun _ => hR.bind hg fun _ => h

theorem commaList (hR : Congruence row R) (hsg : Steady row 0 gap) (hg : R gap gap') {α : Type}
    {p q : Rule α} (hp : Steady row 1 p) (h : R p q) (trailing : Bool) :
    R (Grammar.commaList gap p trailing) (Grammar.commaList gap' q trailing) := by
  have hmore : R (Rule.many (Grammar.afterComma gap p)) (Rule.many (Grammar.afterComma gap' q)) :=
    hR.many (steady_afterComma hsg hp) (hR.afterComma hg h)
  refine hR.bind hg fun _ => hR.bind (hR.optional h) fun first => hR.bind hmore fun more => ?_
  cases trailing with
  | false => exact hR.bind hg fun _ => hR.bind (hR.read _) fun _ => hR.pure _
  | true =>
    exact hR.bind (hR.optional (hR.bind hg fun _ => hR.read _)) fun _ => hR.bind hg fun _ =>
      hR.bind (hR.read _) fun _ => hR.pure _

theorem basic (hR : Congruence row R) (hg : R gap gap')
    (he : ∀ calls, R (r.expression calls) (s.expression calls)) :
    R (Grammar.basic gap r) (Grammar.basic gap' s) :=
  hR.orElse (hR.read _) <| hR.bind (hR.read _) fun _ => hR.bind hg fun _ => hR.bind (he 6) fun _ =>
    hR.bind hg fun _ => hR.bind (hR.read _) fun _ => hR.pure _

theorem negation (hR : Congruence row R) (hg : R gap gap')
    (he : ∀ calls, R (r.expression calls) (s.expression calls)) :
    R (Grammar.negation gap r) (Grammar.negation gap' s) :=
  hR.bind (hR.read _) fun _ => hR.bind hg fun _ => hR.bind (he 2) fun _ => hR.pure _

theorem binaryRest (hR : Congruence row R) (hg : R gap gap')
    (he : ∀ calls, R (r.expression calls) (s.expression calls)) (left : Expr) :
    R (Grammar.binaryRest gap r left) (Grammar.binaryRest gap' s left) :=
  hR.bind hg fun _ => hR.bind (hR.read _) fun _ => hR.bind hg fun _ => hR.bind (he 2) fun _ =>
    hR.pure _

theorem callRest (hR : Congruence row R) (hsg : Steady row 0 gap) (hg : R gap gap')
    (hsteady : ∀ calls, Steady row 1 (r.expression calls)) (h : r.Rel R R s) (callee : Expr) :
    R (Grammar.callRest gap r callee) (Grammar.callRest gap' s callee) := by
  refine hR.bind hg fun _ => hR.bind (hR.read _) fun _ => ?_
  split
  · exact hR.bind (hR.commaList hsg hg steady_parameter (hR.read _) true) fun _ =>
      hR.bind (h.statement 3) fun _ => hR.pure _
  · exact hR.bind (hR.commaList hsg hg (hsteady 4) (h.expression 4) false) fun _ => hR.pure _

theorem expressionFrom (hR : Congruence row R) (hsg : Steady row 0 gap) (hg : R gap gap')
    {p q : Rule Expr} (hsteady : ∀ calls, Steady row 1 (r.expression calls)) (h : r.Rel R R s)
    (hb : R p q) : R (Grammar.expressionFrom gap r p) (Grammar.expressionFrom gap' s q) :=
  hR.orElse (hR.negation hg h.expression) <| hR.bind hb fun left =>
    hR.orElse (hR.binaryRest hg h.expression left) <|
      hR.orElse (hR.callRest hsg hg hsteady h left) (hR.pure left)

theorem statements (hR : Congruence row R) (hg : R gap gap') {p q : Rule Stmt}
    (hsteady : Steady row 1 p) (h : R p q) :
    R (Grammar.statements gap p) (Grammar.statements gap' q) :=
  hR.bind hg fun _ => hR.placed hsteady h

theorem statementFrom (hR : Congruence row R) (hg : R gap gap')
    (hsteady : ∀ calls, Steady row 1 (r.statement calls)) (h : r.Rel R R s) :
    R (Grammar.statementFrom gap r) (Grammar.statementFrom gap' s) := by
  have hblock : R (block gap r) (block gap' s) :=
    hR.bind (hR.read _) fun _ => hR.bind (hR.statements hg (hsteady 4) (h.statement 4)) fun _ =>
      hR.bind hg fun _ => hR.bind (hR.read _) fun _ => hR.pure _
  have helse : R (elseBranch gap r) (elseBranch gap' s) := by
    refine hR.bind (hR.optional (hR.bind hg fun _ => hR.read _)) fun found => ?_
    cases found with
    | none => exact hR.pure none
    | some _ => exact hR.bind (h.statement 2) fun _ => hR.pure _
  have hcond : R (condition gap r) (condition gap' s) :=
    hR.bind (hR.read _) fun _ => hR.bind hg fun _ => hR.bind (hR.read _) fun _ => hR.bind hg fun _ =>
      hR.bind (h.expression 2) fun _ => hR.bind hg fun _ => hR.bind (hR.read _) fun _ =>
        hR.bind (h.statement 2) fun _ => hR.bind helse fun _ => hR.pure _
  have hret : R (returning gap r) (returning gap' s) :=
    hR.bind (hR.read _) fun _ => hR.bind hg fun _ => hR.bind (h.expression 2) fun _ => hR.pure _
  have hassign : R (assignment gap r) (assignment gap' s) :=
    hR.bind (hR.read _) fun _ => hR.bind hg fun _ => hR.bind (hR.read _) fun _ => hR.bind hg fun _ =>
      hR.bind (h.expression 2) fun _ => hR.pure _
  have hbare : R (bareStatement gap r) (bareStatement gap' s) :=
    hR.orElse hblock <| hR.orElse hcond <| hR.orElse hret <| hR.orElse hassign <|
      hR.bind (h.expression 1) fun _ => hR.pure _
  exact hR.bind hg fun _ => hR.bind hbare fun _ => hR.bind hg fun _ => hR.pure _

theorem text (hR : Congruence row R) (hg : R gap gap')
    (hsteady : ∀ calls, Steady row 1 (r.statement calls)) (h : r.Rel R R s) :
    R (Grammar.text gap r) (Grammar.text gap' s) :=
  hR.bind (hR.statements hg (hsteady 2) (h.statement 2)) fun _ => hR.bind hg fun _ => hR.pure _

/-! ### All levels -/

/-- The way of reading basic expressions does no harm to the relation. -/
theorem reading_basic (hR : Congruence row R) (reading : Reading)
    (hmem : reading = .remembering → ∀ {p q : Rule Expr}, Steady row 1 p → R p q →
      R (remembered p) (remembered q))
    (hsg : Steady row 0 gap) (hg : R gap gap')
    (hsteady : ∀ calls, Steady row 1 (r.expression calls))
    (he : ∀ calls, R (r.expression calls) (s.expression calls)) :
    R (reading.basic gap r) (reading.basic gap' s) := by
  cases reading with
  | plain => exact hR.basic hg he
  | remembering => exact hmem rfl (steady_basic hsg hsteady) (hR.basic hg he)

/-- **A relation that the grammar respects holds of the rules with any room**, if it holds of rules
that give up at once. -/
theorem rules (hR : Congruence row R) (hsg : Steady row 0 gap) (hg : R gap gap') (reading : Reading)
    (hmem : reading = .remembering → ∀ {p q : Rule Expr}, Steady row 1 p → R p q →
      R (remembered p) (remembered q))
    (hdeep : ∀ {α : Type}, R (tooDeep : Rule α) tooDeep) (room : Nat) :
    (Grammar.rules gap reading room).Rel R R (Grammar.rules gap' reading room) := by
  induction room with
  | zero => exact ⟨fun _ => hdeep, fun _ => hdeep⟩
  | succ room ih =>
    obtain ⟨hse, hss⟩ := steady_rules hsg reading room
    exact ih.push
      (hR.expressionFrom hsg hg hse ih (hR.reading_basic reading hmem hsg hg hse ih.expression))
      (hR.statementFrom hg hss ih)

end Congruence

end Klex.Grammar
