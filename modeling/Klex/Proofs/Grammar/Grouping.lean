import Klex.Proofs.Tree.Clarity
import Klex.Proofs.Tree.Places

/-!
# How operands, callees and branches are grouped

The grammar has no precedence and no word that ends a condition, so what belongs to what is decided by the
order of the alternatives and by how far each of them reads.

* **`Node.Grouped`** — left operands and callees are basic, the keyword is no callee, and a first branch
  that is followed by `else` does not end with a condition that could take it.
* **`Leaves`** — what a rule accepts in front of a row stands in a relation to what is left of the row.
* **`Grammar.Fits`** — every node of a tree is grouped so, and behind a tree that ends with a condition
  without a second branch there is no `else`.
* **`leaves_rules`** — **what the rules accept fits what they leave**, with any room.
* **`ofTokensWithin_grouped`** — **in the tree of any row of tokens every node is grouped.**

A condition that is taken back and read again as a call makes no difference: only what a rule accepts in
the end is judged, together with the token behind it.
-/

namespace Klex

open Grammar

/-! ### Trees -/

namespace Node

/-- What the grammar never groups otherwise. -/
def Grouped : Node → Prop
  | .expr (.binary _ _ left _) => left.isBasic = true
  | .expr (.call _ callee _) => callee.isBasic = true ∧ ∀ pos, callee ≠ .name pos "function"
  | .stmt (.cond _ _ yes (some _)) => yes.dangles = false
  | _ => True

/-- A node below the root is one of its children or below one of them. -/
theorem Inside.of_children {root n : Node} (h : root.Inside n) :
    n = root ∨ ∃ c ∈ root.children, c.Inside n := by
  induction h with
  | root => exact .inl rfl
  | @child m n _ hn ih =>
    rcases ih with rfl | ⟨c, hc, hm⟩
    · exact .inr ⟨n, hn, .root⟩
    · exact .inr ⟨c, hc, hm.child hn⟩

/-- The node and all nodes below it are grouped. -/
def AllGrouped (root : Node) : Prop := ∀ n, root.Inside n → n.Grouped

theorem AllGrouped.of_children {root : Node} (hroot : root.Grouped)
    (h : ∀ c ∈ root.children, c.AllGrouped) : root.AllGrouped := by
  intro n hn
  rcases hn.of_children with rfl | ⟨c, hc, hn⟩
  · exact hroot
  · exact h c hc n hn

end Node

namespace Grammar

open Rule

/-! ### What a rule leaves -/

/-- What the rule accepts in front of the row stands in the relation to what is left of the row. -/
structure Leaves {α : Type} (row : List Token) (p : Rule α) (Q : α → List Token → Prop) : Prop where
  accepted : ∀ {c d : Cursor} {t u : Trail} {a : α}, c.rest = row → p c t = (.accept a d, u) → Q a d.rest

section

variable {α β : Type} {row : List Token} {Q : α → List Token → Prop} {R : β → List Token → Prop}
  {p : Rule α}

theorem Leaves.anything (row : List Token) (p : Rule α) : Leaves row p fun _ _ => True :=
  ⟨fun _ _ => trivial⟩

theorem Leaves.mono {Q' : α → List Token → Prop} (h : Leaves row p Q) (hQ : ∀ a u, Q a u → Q' a u) :
    Leaves row p Q' :=
  ⟨fun hrow hp => hQ _ _ (h.accepted hrow hp)⟩

theorem Leaves.pure {a : α} (h : Q a row) : Leaves row (pure a) Q := by
  refine ⟨fun {c d t u b} hrow hp => ?_⟩
  obtain ⟨⟨rfl, rfl⟩, -⟩ := by simpa [pure_run] using hp
  rwa [hrow]

theorem Leaves.tooDeep : Leaves row Rule.tooDeep Q := by
  refine ⟨fun {c d t u a} _ hp => ?_⟩
  simp [Rule.tooDeep] at hp

/-- One part after another: the second starts with what the first one leaves. -/
theorem Leaves.bind {f : α → Rule β} (hp : Leaves row p Q) (hf : ∀ a u, Q a u → Leaves u (f a) R) :
    Leaves row (p >>= f) R := by
  refine ⟨fun {c e t v b} hrow h => ?_⟩
  obtain ⟨a, d, u, h₁, h₂⟩ := bind_accepted h
  exact (hf a d.rest (hp.accepted hrow h₁)).accepted rfl h₂

theorem Leaves.orElse {q : Rule α} (hp : Leaves row p Q) (hq : Leaves row q Q) :
    Leaves row (p <|> q) Q := by
  refine ⟨fun {c d t u a} hrow h => ?_⟩
  rcases hout : p c t with ⟨⟨a', d'⟩ | _ | _, u'⟩
  · rw [orElse_accept hout] at h
    rw [h] at hout
    exact hp.accepted hrow hout
  · rw [orElse_reject hout] at h
    exact hq.accepted hrow h
  · rw [orElse_tooDeep hout] at h
    simp at h

theorem Leaves.optional (hp : Leaves row p Q) :
    Leaves row p.optional fun found u => ∀ a ∈ found, Q a u := by
  refine ⟨fun {c d t u found} hrow h a ha => ?_⟩
  rcases hout : p c t with ⟨⟨a', d'⟩ | _ | _, u'⟩
  · rw [optional_accept hout] at h
    obtain ⟨⟨rfl, rfl⟩, -⟩ := by simpa using h
    obtain rfl := Option.some.inj ha
    exact hp.accepted hrow hout
  · rw [optional_reject hout] at h
    obtain ⟨⟨rfl, -⟩, -⟩ := by simpa using h
    cases ha
  · rw [optional_tooDeep hout] at h
    simp at h

/-- A row of items, all of which have a property. -/
theorem Leaves.many {P : α → Prop} (hp : ∀ row, Leaves row p fun a _ => P a) (row : List Token) :
    Leaves row (many p) fun as _ => ∀ a ∈ as, P a := by
  have hupTo : ∀ n row, Leaves row (manyUpTo p n) fun as _ => ∀ a ∈ as, P a := by
    intro n
    induction n with
    | zero => exact fun row => .pure fun a ha => absurd ha List.not_mem_nil
    | succ n ih =>
      intro row
      rw [manyUpTo_succ]
      refine (hp row).optional.bind fun found u hfound => ?_
      cases found with
      | none => exact .pure fun a ha => absurd ha List.not_mem_nil
      | some a =>
        refine (ih u).bind fun more v hmore => .pure ?_
        exact List.forall_mem_cons.2 ⟨hfound a rfl, hmore⟩
  exact ⟨fun hrow h => (hupTo _ _).accepted hrow h⟩

theorem Leaves.placed {P : α → Prop} (hp : ∀ row, Leaves row p fun a _ => P a) (row : List Token) :
    Leaves row (placed p) fun body _ => ∀ a ∈ body.2, P a := by
  refine (Leaves.anything row _).bind fun pos u _ => ?_
  exact (Leaves.many hp u).bind fun items v hitems => .pure hitems

theorem Leaves.commaList {P : α → Prop} (hp : ∀ row, Leaves row p fun a _ => P a) (trailing : Bool)
    (row : List Token) : Leaves row (commaList tight p trailing) fun as _ => ∀ a ∈ as, P a := by
  rw [commaList_tight]
  have hfurther : ∀ row, Leaves row (do let _ ← token .comma; p) fun a _ => P a :=
    fun row => (Leaves.anything row _).bind fun _ u _ => hp u
  refine (hp row).optional.bind fun first u hfirst => (Leaves.many hfurther u).bind fun more v hmore => ?_
  have hall : ∀ a ∈ first.toList ++ more, P a := by
    intro a ha
    rcases List.mem_append.1 ha with ha | ha
    · exact hfirst a (Option.mem_toList.1 ha)
    · exact hmore a ha
  have hclose : ∀ row, Leaves row (do
      let _ ← token .closeParen
      return first.toList ++ more) fun as _ => ∀ a ∈ as, P a :=
    fun row => (Leaves.anything row _).bind fun _ _ _ => .pure hall
  cases trailing with
  | false => exact hclose v
  | true => exact (Leaves.anything v _).bind fun _ w _ => hclose w

end

/-! ### What is ahead -/

/-- The row begins with a word. -/
def Ahead (text : String) (row : List Token) : Prop := ∃ x xs, row = x :: xs ∧ x.IsWord text

/-- A keyword that may be missing is found if it is ahead, and only then. -/
theorem Leaves.keyword (text : String) (row : List Token) :
    Leaves row (keyword text).optional fun found u => match found with
      | some _ => Ahead text row
      | none => u = row ∧ ¬ Ahead text row := by
  refine ⟨fun {c d t u found} hrow h => ?_⟩
  rcases hout : Rule.keyword text c t with ⟨⟨x, c'⟩ | _ | _, t'⟩
  · rw [optional_accept hout] at h
    obtain ⟨⟨rfl, rfl⟩, -⟩ := by simpa using h
    obtain ⟨ts, hread, hword, rfl⟩ := (Reads.keyword text).accepted hout
    exact ⟨x, c'.rest, hrow ▸ hread.rest, hword⟩
  · rw [optional_reject hout] at h
    obtain ⟨⟨rfl, rfl⟩, -⟩ := by simpa using h
    refine ⟨hrow, ?_⟩
    rintro ⟨x, xs, hahead, hkind, htext⟩
    -- the keyword would have been read
    rw [Rule.keyword, read_some (a := x) t (hrow.trans hahead) (by simp [hkind, htext])] at hout
    cases hout
  · rw [optional_tooDeep hout] at h
    simp at h

/-! ### The rules of the grammar -/

/-- Every node is grouped, and the tree does not end so that an `else` ahead would belong to it. -/
structure Fits (n : Node) (dangles : Bool) (ahead : List Token) : Prop where
  grouped : n.AllGrouped
  closed : dangles = true → ¬ Ahead "else" ahead

/-- The expression fits what is left. -/
def ExprFits (e : Expr) : List Token → Prop := Fits (.expr e) e.dangles

/-- The statement fits what is left. -/
def StmtFits (s : Stmt) : List Token → Prop := Fits (.stmt s) s.dangles

/-- What the rules accept fits what they leave. -/
abbrev Rules.Fit (r : Rules) : Prop :=
  r.All (fun p => ∀ row, Leaves row p ExprFits) fun p => ∀ row, Leaves row p StmtFits

section

variable {r : Rules}

theorem leaves_basic (h : r.Fit) (row : List Token) :
    Leaves row (basic tight r) fun e _ => (Node.expr e).AllGrouped ∧ e.isBasic = true := by
  refine Leaves.orElse ⟨fun {c d t u e} _ hread => ?_⟩ ?_
  · obtain ⟨ts, -, x, hx, rfl⟩ := (Reads.read atom?).accepted hread
    unfold atom? at hx
    split at hx
    · obtain rfl := Option.some.inj hx
      exact ⟨.of_children trivial (by simp [Node.children]), rfl⟩
    · split at hx
      · obtain rfl := Option.some.inj hx
        exact ⟨.of_children trivial (by simp [Node.children]), rfl⟩
      · simp at hx
  · rw [group_tight]
    refine (Leaves.anything row _).bind fun start u _ => (h.expression 6 u).bind fun inner v hinner => ?_
    refine (Leaves.anything v _).bind fun stop w _ => .pure ⟨.of_children trivial ?_, rfl⟩
    simpa [Node.children] using hinner.grouped

theorem leaves_negation (h : r.Fit) (row : List Token) :
    Leaves row (negation tight r) ExprFits := by
  rw [negation_tight]
  refine (Leaves.anything row _).bind fun bang u _ => (h.expression 2 u).bind fun operand v hoperand => .pure ?_
  refine ⟨.of_children trivial ?_, hoperand.closed⟩
  simpa [Node.children] using hoperand.grouped

theorem leaves_binaryRest (h : r.Fit) {left : Expr}
    (hleft : (Node.expr left).AllGrouped) (hbasic : left.isBasic = true) (row : List Token) :
    Leaves row (binaryRest tight r left) ExprFits := by
  rw [binaryRest_tight]
  refine (Leaves.anything row _).bind fun op u _ => (h.expression 2 u).bind fun right v hright => .pure ?_
  refine ⟨.of_children hbasic ?_, hright.closed⟩
  simpa [Node.children] using ⟨hleft, hright.grouped⟩

/-- The keyword takes parameters and a body; whatever else stands before a parenthesis is a callee. -/
theorem leaves_callRest (h : r.Fit) {callee : Expr}
    (hcallee : (Node.expr callee).AllGrouped) (hbasic : callee.isBasic = true) (row : List Token) :
    Leaves row (callRest tight r callee) ExprFits := by
  rw [callRest_tight]
  refine (Leaves.anything row _).bind fun start u _ => ?_
  split
  · refine (Leaves.anything u _).bind fun params v _ => (h.statement 3 v).bind fun body w hbody => .pure ?_
    refine ⟨.of_children trivial ?_, hbody.closed⟩
    simpa [Node.children] using hbody.grouped
  · next hword =>
    have harg : ∀ row, Leaves row (r.expression 4) fun e _ => (Node.expr e).AllGrouped :=
      fun row => (h.expression 4 row).mono fun e u hfits => hfits.grouped
    refine (Leaves.commaList harg false u).bind fun args v hargs => .pure ⟨.of_children ⟨hbasic, hword⟩ ?_, ?_⟩
    · simpa [Node.children] using ⟨hcallee, hargs⟩
    · intro hdangles
      cases hdangles

theorem leaves_expressionFrom (h : r.Fit) (row : List Token) :
    Leaves row (expressionFrom tight r (basic tight r)) ExprFits := by
  refine (leaves_negation h row).orElse ((leaves_basic h row).bind fun left u hleft => ?_)
  obtain ⟨hgrouped, hbasic⟩ := hleft
  refine (leaves_binaryRest h hgrouped hbasic u).orElse
    ((leaves_callRest h hgrouped hbasic u).orElse (.pure ⟨hgrouped, fun hdangles => ?_⟩))
  -- a basic expression does not end with a condition
  cases left <;> simp_all [Expr.isBasic, Expr.dangles]

theorem leaves_block (h : r.Fit) (row : List Token) :
    Leaves row (block tight r) StmtFits := by
  rw [block_tight]
  have hitem : ∀ row, Leaves row (r.statement 4) fun s _ => (Node.stmt s).AllGrouped :=
    fun row => (h.statement 4 row).mono fun s u hfits => hfits.grouped
  refine (Leaves.anything row _).bind fun start u _ => (Leaves.placed hitem u).bind fun body v hbody => ?_
  refine (Leaves.anything v _).bind fun stop w _ => .pure ⟨.of_children trivial ?_, ?_⟩
  · simpa [Node.children] using hbody
  · intro hdangles
    cases hdangles

/-- The second branch is there exactly if the keyword is ahead. -/
theorem leaves_elseBranch (h : r.Fit) (row : List Token) :
    Leaves row (elseBranch tight r) fun no u => match no with
      | some no => Ahead "else" row ∧ StmtFits no u
      | none => ¬ Ahead "else" u := by
  rw [elseBranch_tight]
  refine (Leaves.keyword "else" row).bind fun found u hfound => ?_
  cases found with
  | none =>
    obtain ⟨rfl, hahead⟩ := hfound
    exact .pure hahead
  | some word => exact (h.statement 2 u).bind fun no v hno => .pure ⟨hfound, hno⟩

/-- **An `else` belongs to the nearest condition**: if the first branch ended with a condition that could
take it, that condition would have taken it. -/
theorem leaves_condition (h : r.Fit) (row : List Token) :
    Leaves row (condition tight r) StmtFits := by
  rw [condition_tight]
  refine (Leaves.anything row _).bind fun word u _ => (Leaves.anything u _).bind fun start v _ => ?_
  refine (h.expression 2 v).bind fun test w htest => (Leaves.anything w _).bind fun stop x _ => ?_
  refine (h.statement 2 x).bind fun yes y hyes => (leaves_elseBranch h y).bind fun no z hno => .pure ?_
  cases no with
  | none =>
    refine ⟨.of_children trivial ?_, fun _ => hno⟩
    simpa [Node.children] using ⟨htest.grouped, hyes.grouped⟩
  | some no =>
    obtain ⟨hahead, hno⟩ := hno
    have hyes' : yes.dangles = false := Bool.eq_false_iff.2 fun hdangles => hyes.closed hdangles hahead
    refine ⟨.of_children hyes' ?_, hno.closed⟩
    simpa [Node.children] using ⟨htest.grouped, hyes.grouped, hno.grouped⟩

theorem leaves_statementFrom (h : r.Fit) (row : List Token) :
    Leaves row (statementFrom tight r) StmtFits := by
  have hret : Leaves row (returning tight r) StmtFits := by
    rw [returning_tight]
    refine (Leaves.anything row _).bind fun word u _ => (h.expression 2 u).bind fun value v hvalue => .pure ?_
    refine ⟨.of_children trivial ?_, hvalue.closed⟩
    simpa [Node.children] using hvalue.grouped
  have hassign : Leaves row (assignment tight r) StmtFits := by
    rw [assignment_tight]
    refine (Leaves.anything row _).bind fun target u _ => (Leaves.anything u _).bind fun eq v _ => ?_
    refine (h.expression 2 v).bind fun value w hvalue => .pure ⟨.of_children trivial ?_, hvalue.closed⟩
    simpa [Node.children] using hvalue.grouped
  rw [statementFrom_tight]
  refine (leaves_block h row).orElse <| (leaves_condition h row).orElse <| hret.orElse <|
    hassign.orElse <| (h.expression 1 row).bind fun e u hexpr => .pure ⟨.of_children trivial ?_, hexpr.closed⟩
  simpa [Node.children] using hexpr.grouped

/-- **What the rules accept fits what they leave**, with any room. -/
theorem leaves_rules (room : Nat) : (rules tight .plain room).Fit := by
  induction room with
  | zero => exact ⟨fun _ _ => .tooDeep, fun _ _ => .tooDeep⟩
  | succ room ih => exact ih.push (leaves_expressionFrom ih) (leaves_statementFrom ih)

theorem leaves_endless : (endless tight).Fit :=
  ⟨fun _ row => ⟨fun {c _ _ _ _} hrow h => ((leaves_rules (ample c)).expression 0 row).accepted hrow h⟩,
    fun _ row => ⟨fun {c _ _ _ _} hrow h => ((leaves_rules (ample c)).statement 0 row).accepted hrow h⟩⟩

end

/-! ### Whole texts -/

theorem unlimited_grouped {row : List Token} {p : Program} (h : unlimited tight row = .ok p) :
    (Node.program p).AllGrouped := by
  obtain ⟨next, trail, htext, -⟩ := verdict_ok h
  have hstatement : ∀ row, Leaves row ((endless tight).statement 2) fun s _ => (Node.stmt s).AllGrouped :=
    fun row => (leaves_endless.statement 2 row).mono fun s u hfits => hfits.grouped
  have hbody : Leaves row (text tight (endless tight)) fun p _ =>
      ∀ s ∈ p.statements, (Node.stmt s).AllGrouped := by
    rw [text_tight]
    exact (Leaves.placed hstatement row).bind fun body u hbody => .pure hbody
  have hgrouped := hbody.accepted rfl htext
  exact .of_children trivial (by simpa [Node.children] using hgrouped)

/-- **In the tree of any row of tokens every node is grouped**, in either way of reading and with any
room. -/
theorem ofTokensWithin_grouped (reading : Reading) (room : Nat) (tokens : List Token) (p : Program)
    (h : Program.ofTokensWithin reading room tokens = .ok p) :
    ∀ n, (Node.program p).Inside n → n.Grouped :=
  unlimited_grouped (unlimited_of_ofTokensWithin h)

/-- The row `if(a)if(b)c else d-e-f`: an `else` that either condition could take, and a chain. -/
def nestedConditions : List Token :=
  [.spelled .identifier "if" 0, .spelled .openParen "(" 2,
   .spelled .identifier "a" 3, .spelled .closeParen ")" 4,
   .spelled .identifier "if" 5, .spelled .openParen "(" 7,
   .spelled .identifier "b" 8, .spelled .closeParen ")" 9,
   .spelled .identifier "c" 10, .spelled .identifier "else" 12,
   .spelled .identifier "d" 17, .spelled .operator "-" 18,
   .spelled .identifier "e" 19, .spelled .operator "-" 20,
   .spelled .identifier "f" 21]

/-- The tree of the row: the inner condition takes the `else`, and the chain groups to the right. -/
def nestedTree : Program :=
  ⟨some 0, [.cond 0 (.name 3 "a") (.cond 5 (.name 8 "b") (.expr (.name 10 "c"))
    (some (.expr (.binary 17 "-" (.name 17 "d") (.binary 19 "-" (.name 19 "e") (.name 21 "f")))))) none]⟩

theorem ofTokensWithin_grouped_nested :
    Program.ofTokensWithin .plain callLimit nestedConditions = .ok nestedTree ∧
      ∀ n, (Node.program nestedTree).Inside n → n.Grouped := by
  have h : Program.ofTokensWithin .plain callLimit nestedConditions = .ok nestedTree := rfl
  exact ⟨h, ofTokensWithin_grouped .plain callLimit nestedConditions nestedTree h⟩

end Grammar

end Klex
