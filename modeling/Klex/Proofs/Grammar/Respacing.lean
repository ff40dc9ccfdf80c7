import Klex.Proofs.Grammar.Outcome
import Klex.Proofs.Tree.Clarity

/-!
# Rows that differ in layout alone

Two rows of tokens are run side by side.  Their significant tokens agree in kind, text and value; what
stands between them, and every offset, may differ.

* **`Token.form`** — what the grammar and its failures see of a token.
* **`Cursor.Abreast`**, **`Trail.Abreast`** — the same place in both rows; the same furthest index, and
  the same basic expressions remembered up to offsets.
* **`Rule.Like`** — from places abreast, two rules come to replies that look the same through a view of
  their results: both accept, both reject, or both give up.
* **`like_rules`** — the rules of the grammar are like themselves, through the view that forgets
  offsets, in either way of reading and with any room.
* **`run_respaced`** — so runs on both rows come to the same tree up to offsets, or to the same refusal.

Rules are compared through views and not by equality, because every node that a rule makes carries the
offset of its first token.
-/

namespace Klex

open Grammar

/-- What the grammar and its failures see of a token. -/
def Token.form (t : Token) : Kind × String × Literal := (t.kind, t.text, t.value)

theorem Token.kind_of_form {x y : Token} (h : x.form = y.form) : x.kind = y.kind :=
  congrArg (fun form => form.1) h

theorem Token.text_of_form {x y : Token} (h : x.form = y.form) : x.text = y.text :=
  congrArg (fun form => form.2.1) h

theorem Token.value_of_form {x y : Token} (h : x.form = y.form) : x.value = y.value :=
  congrArg (fun form => form.2.2) h

theorem Token.name_of_form {x y : Token} (h : x.form = y.form) : x.name = y.name :=
  congrArg Literal.asText (Token.value_of_form h)

/-- A name is told from other expressions without its offset. -/
theorem Expr.name_of_unplaced {e : Expr} {pos : Nat} {id : String}
    (h : e.unplaced = (Expr.name pos id).unplaced) : ∃ pos', e = .name pos' id := by
  cases e <;> simp [Expr.unplaced] at h
  subst h
  exact ⟨_, rfl⟩

namespace Grammar

/-! ### Places abreast -/

/-- The same place in two rows. -/
structure Cursor.Abreast (c d : Cursor) : Prop where
  index : c.index = d.index
  rest : c.rest.map Token.form = d.rest.map Token.form

/-- What is remembered of a basic expression, without offsets. -/
def foundForm : Option (Expr × Cursor) → Option (Expr × Nat × List (Kind × String × Literal)) :=
  Option.map fun found => (found.1.unplaced, found.2.index, found.2.rest.map Token.form)

/-- The same furthest index, and the same basic expressions remembered. -/
structure Trail.Abreast (t u : Trail) : Prop where
  furthest : t.furthest = u.furthest
  basics : ∀ n : Nat, t.basics[n]?.map foundForm = u.basics[n]?.map foundForm

section

variable {c d : Cursor} {t u : Trail}

theorem Cursor.Abreast.start {row other : List Token}
    (h : row.map Token.form = other.map Token.form) : (Cursor.start row).Abreast (.start other) where
  index := rfl
  rest := h

theorem Cursor.Abreast.length (h : c.Abreast d) : c.rest.length = d.rest.length := by
  have hlen := congrArg List.length h.rest
  simpa using hlen

theorem Trail.Abreast.empty : Trail.empty.Abreast .empty where
  furthest := rfl
  basics := fun _ => rfl

theorem Trail.Abreast.note (h : t.Abreast u) (n : Nat) : (t.note n).Abreast (u.note n) where
  furthest := by
    show max t.furthest n = max u.furthest n
    rw [h.furthest]
  basics := h.basics

theorem Trail.Abreast.remember (h : t.Abreast u) (n : Nat) {x y : Option (Expr × Cursor)}
    (hxy : foundForm x = foundForm y) : (t.remember n x).Abreast (u.remember n y) where
  furthest := h.furthest
  basics := by
    intro k
    simp only [Trail.remember, Std.HashMap.getElem?_insert]
    by_cases hk : (n == k) = true
    · simp [hk, hxy]
    · simp [hk, h.basics k]

end

/-! ### Rules that are like each other -/

/-- Replies that look the same through a view: both accept at places abreast, both reject, or both
give up. -/
inductive Reply.Like {α β : Type} (view : α → β) : Reply α → Reply α → Prop
  | accept {a b : α} {c d : Cursor} :
      view a = view b → c.Abreast d → Reply.Like view (.accept a c) (.accept b d)
  | reject : Reply.Like view .reject .reject
  | tooDeep : Reply.Like view .tooDeep .tooDeep

/-- From places abreast the rules come to replies that look the same, and to trails abreast. -/
def Rule.Like {α β : Type} (view : α → β) (p q : Rule α) : Prop :=
  ∀ c d t u, c.Abreast d → t.Abreast u →
    Reply.Like view (p c t).1 (q d u).1 ∧ (p c t).2.Abreast (q d u).2

open Rule

section

variable {α β γ δ : Type} {view : α → β} {seen : γ → δ} {p q p' q' : Rule α}

theorem Rule.Like.pure {a b : α} (h : view a = view b) : Like view (pure a) (pure b) := by
  intro c d t u hcd htu
  exact ⟨.accept h hcd, htu⟩

theorem Rule.Like.tooDeep : Like view (Rule.tooDeep : Rule α) Rule.tooDeep := by
  intro c d t u hcd htu
  exact ⟨.tooDeep, htu⟩

/-- Reading a token, where what is made of it looks the same for tokens of the same form. -/
theorem Rule.Like.read {f g : Token → Option α}
    (h : ∀ x y, x.form = y.form → (f x).map view = (g y).map view) :
    Like view (read f) (read g) := by
  intro c d t u hcd htu
  have hrest := hcd.rest
  rcases hc : c.rest with _ | ⟨x, xs⟩ <;> rcases hd : d.rest with _ | ⟨y, ys⟩
  · rw [read_nil f t hc, read_nil g u hd, hcd.index]
    exact ⟨.reject, htu.note _⟩
  · simp [hc, hd] at hrest
  · simp [hc, hd] at hrest
  · rw [hc, hd, List.map_cons, List.map_cons, List.cons.injEq] at hrest
    have hxy := h x y hrest.1
    cases hx : f x with
    | none =>
      cases hy : g y with
      | none =>
        rw [read_none t hc hx, read_none u hd hy, hcd.index]
        exact ⟨.reject, htu.note _⟩
      | some b => simp [hx, hy] at hxy
    | some a =>
      cases hy : g y with
      | none => simp [hx, hy] at hxy
      | some b =>
        rw [read_some t hc hx, read_some u hd hy]
        refine ⟨.accept (by simpa [hx, hy] using hxy) ⟨?_, hrest.2⟩, htu⟩
        show c.index + 1 = d.index + 1
        rw [hcd.index]

theorem Rule.Like.token (kind : Kind) : Like Token.form (Rule.token kind) (Rule.token kind) := by
  apply Like.read
  intro x y hxy
  rw [Token.kind_of_form hxy]
  by_cases hk : y.kind = kind
  · simp [hk, hxy]
  · simp [hk]

theorem Rule.Like.keyword (text : String) :
    Like Token.form (Rule.keyword text) (Rule.keyword text) := by
  apply Like.read
  intro x y hxy
  rw [Token.kind_of_form hxy, Token.text_of_form hxy]
  by_cases hk : (decide (y.kind = .identifier) && decide (y.text = text)) = true
  · simp only [hk, if_true, Option.map_some, hxy]
  · simp only [hk, Bool.false_eq_true, if_false, Option.map_none]

theorem Rule.Like.bind {f g : α → Rule γ} (h : Like view p q)
    (hf : ∀ a b, view a = view b → Like seen (f a) (g b)) :
    Like seen (p >>= f) (q >>= g) := by
  intro c d t u hcd htu
  obtain ⟨hreply, htrail⟩ := h c d t u hcd htu
  rcases hp : p c t with ⟨reply, t'⟩
  rcases hq : q d u with ⟨reply', u'⟩
  rw [hp, hq] at hreply htrail
  cases hreply with
  | accept hab hnext =>
    rw [bind_accept hp, bind_accept hq]
    exact hf _ _ hab _ _ _ _ hnext htrail
  | reject =>
    rw [bind_reject hp, bind_reject hq]
    exact ⟨.reject, htrail⟩
  | tooDeep =>
    rw [bind_tooDeep hp, bind_tooDeep hq]
    exact ⟨.tooDeep, htrail⟩

theorem Rule.Like.orElse (h : Like view p q) (h' : Like view p' q') :
    Like view (p <|> p') (q <|> q') := by
  intro c d t u hcd htu
  obtain ⟨hreply, htrail⟩ := h c d t u hcd htu
  rcases hp : p c t with ⟨reply, t'⟩
  rcases hq : q d u with ⟨reply', u'⟩
  rw [hp, hq] at hreply htrail
  cases hreply with
  | accept hab hnext =>
    rw [orElse_accept hp, orElse_accept hq]
    exact ⟨.accept hab hnext, htrail⟩
  | reject =>
    rw [orElse_reject hp, orElse_reject hq]
    exact h' c d t' u' hcd htrail
  | tooDeep =>
    rw [orElse_tooDeep hp, orElse_tooDeep hq]
    exact ⟨.tooDeep, htrail⟩

theorem Rule.Like.optional (h : Like view p q) :
    Like (Option.map view) p.optional q.optional := by
  intro c d t u hcd htu
  obtain ⟨hreply, htrail⟩ := h c d t u hcd htu
  rcases hp : p c t with ⟨reply, t'⟩
  rcases hq : q d u with ⟨reply', u'⟩
  rw [hp, hq] at hreply htrail
  cases hreply with
  | accept hab hnext =>
    rw [optional_accept hp, optional_accept hq]
    exact ⟨.accept (congrArg some hab) hnext, htrail⟩
  | reject =>
    rw [optional_reject hp, optional_reject hq]
    exact ⟨.accept rfl hcd, htrail⟩
  | tooDeep =>
    rw [optional_tooDeep hp, optional_tooDeep hq]
    exact ⟨.tooDeep, htrail⟩

/-- What an optional part came to looks the same: it is missing from both, or there in both. -/
theorem view_cases {first second : Option α} (h : first.map view = second.map view) :
    (first = none ∧ second = none) ∨ ∃ a b, first = some a ∧ second = some b ∧ view a = view b := by
  cases first <;> cases second <;> simp_all

theorem Rule.Like.manyUpTo (h : Like view p q) (n : Nat) :
    Like (List.map view) (Rule.manyUpTo p n) (Rule.manyUpTo q n) := by
  induction n with
  | zero => exact .pure rfl
  | succ n ih =>
    rw [manyUpTo_succ, manyUpTo_succ]
    refine h.optional.bind fun first second hfirst => ?_
    rcases view_cases hfirst with ⟨rfl, rfl⟩ | ⟨a, b, rfl, rfl, hab⟩
    · exact .pure rfl
    · refine ih.bind fun more others hmore => .pure ?_
      rw [List.map_cons, List.map_cons, hab, hmore]

/-- Places abreast have as many tokens left, so both rows of items are bounded alike. -/
theorem Rule.Like.many (h : Like view p q) : Like (List.map view) (Rule.many p) (Rule.many q) := by
  intro c d t u hcd htu
  rw [Rule.many, Rule.many, hcd.length]
  exact h.manyUpTo _ c d t u hcd htu

/-- The offset that a row of items starts at does not show. -/
theorem Rule.Like.placed (h : Like view p q) :
    Like (fun body => body.2.map view) (Rule.placed p) (Rule.placed q) := by
  have hpos : Like (fun _ => ()) Rule.pos? Rule.pos? := by
    intro c d t u hcd htu
    exact ⟨.accept rfl hcd, htu⟩
  exact hpos.bind fun _ _ _ => h.many.bind fun items others hitems => .pure hitems

end

theorem Rule.Like.remembered {p q : Rule Expr} (h : Like Expr.unplaced p q) :
    Like Expr.unplaced (Grammar.remembered p) (Grammar.remembered q) := by
  intro c d t u hcd htu
  have hmem := htu.basics c.index
  unfold Grammar.remembered
  rw [← hcd.index]
  generalize t.basics[c.index]? = x at hmem ⊢
  generalize u.basics[c.index]? = y at hmem ⊢
  rcases x with _ | x <;> rcases y with _ | y
  · obtain ⟨hreply, htrail⟩ := h c d t u hcd htu
    rcases hp : p c t with ⟨reply, t'⟩
    rcases hq : q d u with ⟨reply', u'⟩
    rw [hp, hq] at hreply htrail
    cases hreply with
    | accept hab hnext =>
      refine ⟨.accept hab hnext, htrail.remember _ ?_⟩
      simp [foundForm, hab, hnext.index, hnext.rest]
    | reject => exact ⟨.reject, htrail.remember _ rfl⟩
    | tooDeep => exact ⟨.tooDeep, htrail⟩
  · simp at hmem
  · simp at hmem
  · rcases x with _ | ⟨e, next⟩ <;> rcases y with _ | ⟨e', next'⟩
    · exact ⟨.reject, htu⟩
    · simp [foundForm] at hmem
    · simp [foundForm] at hmem
    · obtain ⟨he, hindex, hrest⟩ := by simpa [foundForm] using hmem
      exact ⟨.accept he ⟨hindex, hrest⟩, htu⟩

/-! ### The rules of the grammar -/

theorem like_commaList {α β : Type} {view : α → β} {p q : Rule α} (h : Like view p q)
    (trailing : Bool) :
    Like (List.map view) (commaList tight p trailing) (commaList tight q trailing) := by
  rw [commaList_tight, commaList_tight]
  have hmore := ((Like.token .comma).bind fun _ _ _ => h).many
  refine h.optional.bind fun first second hfirst => hmore.bind fun more others hmany => ?_
  have hitems : (first.toList ++ more).map view = (second.toList ++ others).map view := by
    rcases view_cases hfirst with ⟨rfl, rfl⟩ | ⟨a, b, rfl, rfl, hab⟩
    · simpa using hmany
    · simp [hab, hmany]
  have hclose : Like (List.map view)
      (do
        let _ ← Rule.token .closeParen
        return first.toList ++ more)
      (do
        let _ ← Rule.token .closeParen
        return second.toList ++ others) :=
    (Like.token .closeParen).bind fun _ _ _ => .pure hitems
  cases trailing with
  | false => exact hclose
  | true => exact (Like.token .comma).optional.bind fun _ _ _ => hclose

section

variable {r s : Rules}

theorem like_basic (he : ∀ calls, Like Expr.unplaced (r.expression calls) (s.expression calls)) :
    Like Expr.unplaced (basic tight r) (basic tight s) := by
  have hatom : Like Expr.unplaced (read atom?) (read atom?) := by
    apply Like.read
    intro x y hxy
    rw [atom?, atom?, Token.kind_of_form hxy, Token.name_of_form hxy, Token.value_of_form hxy]
    by_cases hl : y.kind.isLiteral = true
    · simp [hl, Expr.unplaced]
    · by_cases hi : y.kind = .identifier
      · rw [if_neg hl, if_neg hl, if_pos hi, if_pos hi]
        rfl
      · simp [hl, hi]
  have hgroup : Like Expr.unplaced (group tight r) (group tight s) := by
    rw [group_tight, group_tight]
    refine (Like.token .openParen).bind fun _ _ _ => (he 6).bind fun a b hab =>
      (Like.token .closeParen).bind fun _ _ _ => .pure ?_
    rw [Expr.unplaced, Expr.unplaced, hab]
  exact hatom.orElse hgroup

theorem like_binaryRest (he : ∀ calls, Like Expr.unplaced (r.expression calls) (s.expression calls))
    {left left' : Expr} (hleft : left.unplaced = left'.unplaced) :
    Like Expr.unplaced (binaryRest tight r left) (binaryRest tight s left') := by
  rw [binaryRest_tight, binaryRest_tight]
  refine (Like.token .operator).bind fun op op' hop => (he 2).bind fun a b hab => .pure ?_
  rw [Expr.unplaced, Expr.unplaced, hleft, hab, Token.name_of_form hop]

theorem like_functionRest (hs : ∀ calls, Like Stmt.unplaced (r.statement calls) (s.statement calls))
    (pos pos' : Nat) : Like Expr.unplaced (functionRest tight r pos) (functionRest tight s pos') := by
  have hname : Like id parameter parameter := by
    apply Like.read
    intro x y hxy
    rw [Token.kind_of_form hxy, Token.name_of_form hxy]
  refine (like_commaList hname true).bind fun params params' hparams =>
    (hs 3).bind fun body body' hbody => .pure ?_
  obtain rfl : params = params' := by simpa using hparams
  rw [Expr.unplaced, Expr.unplaced, hbody]

theorem like_argumentsRest
    (he : ∀ calls, Like Expr.unplaced (r.expression calls) (s.expression calls))
    {callee callee' : Expr} (hcallee : callee.unplaced = callee'.unplaced) :
    Like Expr.unplaced (argumentsRest tight r callee) (argumentsRest tight s callee') := by
  refine (like_commaList (he 4) false).bind fun args args' hargs => .pure ?_
  rw [Expr.unplaced, Expr.unplaced, hcallee, Expr.unplacedAll_eq_map, Expr.unplacedAll_eq_map, hargs]

/-- A callee is the word for a function literal in both rows or in neither. -/
theorem like_callRest (h : r.Rel (Like Expr.unplaced) (Like Stmt.unplaced) s) {callee callee' : Expr}
    (hcallee : callee.unplaced = callee'.unplaced) :
    Like Expr.unplaced (callRest tight r callee) (callRest tight s callee') := by
  rw [callRest_tight, callRest_tight]
  refine (Like.token .openParen).bind fun _ _ _ => ?_
  by_cases hword : ∃ pos, callee = .name pos "function"
  · obtain ⟨pos, rfl⟩ := hword
    obtain ⟨pos', rfl⟩ := Expr.name_of_unplaced hcallee.symm
    exact like_functionRest h.statement pos pos'
  · have hword' : ¬ ∃ pos, callee' = .name pos "function" := by
      rintro ⟨pos', rfl⟩
      exact hword (Expr.name_of_unplaced hcallee)
    split
    · next pos => exact absurd ⟨pos, rfl⟩ hword
    · split
      · next pos' => exact absurd ⟨pos', rfl⟩ hword'
      · exact like_argumentsRest h.expression hcallee

theorem like_expressionFrom {p q : Rule Expr} (h : r.Rel (Like Expr.unplaced) (Like Stmt.unplaced) s)
    (hb : Like Expr.unplaced p q) :
    Like Expr.unplaced (expressionFrom tight r p) (expressionFrom tight s q) := by
  have hnegation : Like Expr.unplaced (negation tight r) (negation tight s) := by
    rw [negation_tight, negation_tight]
    refine (Like.token .negate).bind fun _ _ _ => (h.expression 2).bind fun a b hab => .pure ?_
    rw [Expr.unplaced, Expr.unplaced, hab]
  exact hnegation.orElse <| hb.bind fun left left' hleft =>
    (like_binaryRest h.expression hleft).orElse <| (like_callRest h hleft).orElse <| .pure hleft

theorem like_block (hs : ∀ calls, Like Stmt.unplaced (r.statement calls) (s.statement calls)) :
    Like Stmt.unplaced (block tight r) (block tight s) := by
  rw [block_tight, block_tight]
  refine (Like.token .openCurly).bind fun _ _ _ => (hs 4).placed.bind fun body body' hbody =>
    (Like.token .closeCurly).bind fun _ _ _ => .pure ?_
  rw [Stmt.unplaced, Stmt.unplaced, Stmt.unplacedAll_eq_map, Stmt.unplacedAll_eq_map, hbody]

theorem like_elseBranch (hs : ∀ calls, Like Stmt.unplaced (r.statement calls) (s.statement calls)) :
    Like (Option.map Stmt.unplaced) (elseBranch tight r) (elseBranch tight s) := by
  rw [elseBranch_tight, elseBranch_tight]
  refine (Like.keyword "else").optional.bind fun found found' hfound => ?_
  rcases view_cases hfound with ⟨rfl, rfl⟩ | ⟨_, _, rfl, rfl, _⟩
  · exact .pure rfl
  · exact (hs 2).bind fun a b hab => .pure (congrArg some hab)

theorem like_condition (h : r.Rel (Like Expr.unplaced) (Like Stmt.unplaced) s) :
    Like Stmt.unplaced (condition tight r) (condition tight s) := by
  rw [condition_tight, condition_tight]
  refine (Like.keyword "if").bind fun _ _ _ => (Like.token .openParen).bind fun _ _ _ =>
    (h.expression 2).bind fun test test' htest => (Like.token .closeParen).bind fun _ _ _ =>
    (h.statement 2).bind fun yes yes' hyes => (like_elseBranch h.statement).bind fun no no' hno =>
    .pure ?_
  rw [Stmt.unplaced, Stmt.unplaced, htest, hyes, Stmt.unplacedElse_eq_map,
    Stmt.unplacedElse_eq_map, hno]

theorem like_statementFrom (h : r.Rel (Like Expr.unplaced) (Like Stmt.unplaced) s) :
    Like Stmt.unplaced (statementFrom tight r) (statementFrom tight s) := by
  have hret : Like Stmt.unplaced (returning tight r) (returning tight s) := by
    rw [returning_tight, returning_tight]
    refine (Like.keyword "return").bind fun _ _ _ => (h.expression 2).bind fun a b hab => .pure ?_
    rw [Stmt.unplaced, Stmt.unplaced, hab]
  have hassign : Like Stmt.unplaced (assignment tight r) (assignment tight s) := by
    rw [assignment_tight, assignment_tight]
    refine (Like.token .identifier).bind fun x y hxy => (Like.token .assign).bind fun _ _ _ =>
      (h.expression 2).bind fun a b hab => .pure ?_
    rw [Stmt.unplaced, Stmt.unplaced, hab, Token.name_of_form hxy]
  have hexpr : Like Stmt.unplaced (do return Stmt.expr (← r.expression 1))
      (do return Stmt.expr (← s.expression 1)) := by
    refine (h.expression 1).bind fun a b hab => .pure ?_
    rw [Stmt.unplaced, Stmt.unplaced, hab]
  rw [statementFrom_tight, statementFrom_tight]
  exact (like_block h.statement).orElse <| (like_condition h).orElse <| hret.orElse <|
    hassign.orElse hexpr

end

/-- **The rules are like themselves**, whatever the offsets of the tokens that they read. -/
theorem like_rules (reading : Reading) (room : Nat) :
    (rules tight reading room).Rel (Like Expr.unplaced) (Like Stmt.unplaced)
      (rules tight reading room) := by
  induction room with
  | zero => exact ⟨fun _ => .tooDeep, fun _ => .tooDeep⟩
  | succ room ih =>
    have hb : Like Expr.unplaced (reading.basic tight (rules tight reading room))
        (reading.basic tight (rules tight reading room)) := by
      cases reading with
      | plain => exact like_basic ih.expression
      | remembering => exact (like_basic ih.expression).remembered
    exact ih.push (like_expressionFrom ih hb) (like_statementFrom ih)

/-! ### Whole texts -/

/-- **Rows of the same forms come to the same program up to offsets, or to the same refusal.** -/
theorem run_respaced (reading : Reading) (room : Nat) {row other : List Token}
    (h : row.map Token.form = other.map Token.form) :
    (∃ p q, run tight reading room row = .ok p ∧ run tight reading room other = .ok q ∧
        p.unplaced = q.unplaced) ∨
      ∃ refusal, run tight reading room row = .error refusal ∧
        run tight reading room other = .error refusal := by
  have htext : Like Program.unplaced (text tight (rules tight reading room))
      (text tight (rules tight reading room)) := by
    rw [text_tight]
    refine ((like_rules reading room).statement 2).placed.bind fun body body' hbody => .pure ?_
    rw [Program.unplaced, Program.unplaced, Stmt.unplacedAll_eq_map, Stmt.unplacedAll_eq_map, hbody]
  obtain ⟨hreply, htrail⟩ := htext _ _ _ _ (Cursor.Abreast.start h) .empty
  rw [run, run, program]
  rcases hp : text tight (rules tight reading room) (.start row) .empty with ⟨reply, t⟩
  rcases hq : text tight (rules tight reading room) (.start other) .empty with ⟨reply', u⟩
  rw [hp, hq] at hreply htrail
  cases hreply with
  | @accept p q c d hpq hnext =>
    by_cases hrest : c.rest = []
    · have hrest' : d.rest = [] := by
        rw [← List.length_eq_zero_iff, ← hnext.length, hrest, List.length_nil]
      refine .inl ⟨p, q, ?_, ?_, hpq⟩
      · simp [verdict, hrest]
      · simp [verdict, hrest']
    · have hrest' : d.rest ≠ [] := by
        rw [Ne, ← List.length_eq_zero_iff, ← hnext.length, List.length_eq_zero_iff]
        exact hrest
      refine .inr ⟨_, verdict_accept hrest, ?_⟩
      rw [verdict_accept hrest', htrail.furthest, hnext.index]
  | reject =>
    refine .inr ⟨.stuckAt t.furthest, rfl, ?_⟩
    rw [htrail.furthest]
    rfl
  | tooDeep =>
    refine .inr ⟨.tooDeep t.furthest, rfl, ?_⟩
    rw [htrail.furthest]
    rfl

/-- A refusal names the same text, or the end, in rows whose significant tokens have the same forms. -/
theorem failureAt_respaced {tokens others : List Token}
    (h : (significant tokens).map Token.form = (significant others).map Token.form) (index : Nat) :
    (failureAt tokens (place tokens index)).cause
      = (failureAt others (place others index)).cause := by
  have hindex := congrArg (fun forms => forms[index]?) h
  simp only [List.getElem?_map] at hindex
  rw [failureAt, failureAt, getElem?_place, getElem?_place]
  rcases view_cases hindex with ⟨hx, hy⟩ | ⟨x, y, hx, hy, hxy⟩
  · rw [hx, hy]
  · rw [hx, hy]
    show Cause.unexpected x.text = Cause.unexpected y.text
    rw [Token.text_of_form hxy]

/-- **Layout does not matter.**  Rows whose significant tokens agree in kind, text and value are both
programs, equal up to the offsets of their nodes, or are both refused for the same cause and with the
same message.  The rules pass over the layout of each row where they meet it. -/
theorem ofTokensWithin_respaced (reading : Reading) (room : Nat) (tokens others : List Token)
    (h : (significant tokens).map Token.form = (significant others).map Token.form) :
    (∃ p q, Program.ofTokensWithin reading room tokens = .ok p ∧
        Program.ofTokensWithin reading room others = .ok q ∧ p.unplaced = q.unplaced) ∨
      ∃ f g, Program.ofTokensWithin reading room tokens = .error f ∧
        Program.ofTokensWithin reading room others = .error g ∧ f.cause = g.cause ∧
        f.describe = g.describe := by
  rcases run_respaced reading room h with ⟨p, q, hp, hq, hpq⟩ | ⟨refusal, hp, hq⟩
  · exact .inl ⟨p, q, ofTokensWithin_ok_iff.2 hp, ofTokensWithin_ok_iff.2 hq, hpq⟩
  · right
    have hfailures : ∃ f g, Program.ofTokensWithin reading room tokens = .error f ∧
        Program.ofTokensWithin reading room others = .error g ∧ f.cause = g.cause := by
      cases refusal with
      | tooDeep index =>
        obtain ⟨k, -, hk⟩ := tooDeep_of_gaveUp (gaveUp_iff.2 ⟨index, hp⟩)
        obtain ⟨l, -, hl⟩ := tooDeep_of_gaveUp (gaveUp_iff.2 ⟨index, hq⟩)
        exact ⟨_, _, hk, hl, rfl⟩
      | stuckAt index =>
        have htokens : RefusedAt reading room tokens (place tokens index) :=
          refusedAt_iff.2 ⟨index, hp, rfl⟩
        have hothers : RefusedAt reading room others (place others index) :=
          refusedAt_iff.2 ⟨index, hq, rfl⟩
        exact ⟨_, _, htokens.failure.2, hothers.failure.2, failureAt_respaced h index⟩
    obtain ⟨f, g, hf, hg, hcause⟩ := hfailures
    exact ⟨f, g, hf, hg, hcause, by rw [Failure.describe, Failure.describe, hcause]⟩

/-- The row `f(a b`, written without a break. -/
def tightRow : List Token :=
  [.spelled .identifier "f" 0, .spelled .openParen "(" 1, .spelled .identifier "a" 2, .blank " " 3,
   .spelled .identifier "b" 4]

/-- The same row with a comment in front and blanks at the end. -/
def looseRow : List Token :=
  [.comment "/* call */" 0, .spelled .identifier "f" 10,
   .spelled .openParen "(" 11, .blank "\n" 12, .spelled .identifier "a" 13, .blank " " 14,
   .spelled .identifier "b" 15, .blank "  " 16]

theorem ofTokensWithin_respaced_openCall :
    (significant tightRow).map Token.form = (significant looseRow).map Token.form ∧
      ∃ f g, Program.ofTokens callLimit tightRow = .error f ∧
        Program.ofTokens callLimit looseRow = .error g ∧ f.describe = g.describe := by
  have h : (significant tightRow).map Token.form = (significant looseRow).map Token.form := rfl
  refine ⟨h, ?_⟩
  rcases ofTokensWithin_respaced .plain callLimit tightRow looseRow h with
    ⟨p, q, hp, -, -⟩ | ⟨f, g, hf, hg, -, hmessage⟩
  · have hstuck : Program.ofTokensWithin .plain callLimit tightRow
        = .error ⟨.unexpected "b", some 4⟩ := rfl
    rw [hstuck] at hp
    simp at hp
  · exact ⟨f, g, hf, hg, hmessage⟩

end Grammar

end Klex
