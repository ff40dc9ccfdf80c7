import Klex.Proofs.Grammar.Reads

/-!
# Accepting and rejecting

Judgements about rules that do not look at the trail, with the notes left out.

* **`Accepts`** — at a place the rule accepts a value and goes on at another place.
* **`Rejects`** — at a place the rule rejects.
* **`Accepts.many_cons`**, **`Accepts.many_nil`** — a row of items is read item by item, up to the
  place where the rule rejects; the bound on the number of attempts does not show.
* **`rejects_expression`**, **`rejects_statement`** — neither rule accepts before a token of a kind that
  nothing begins with.
* **`unlimited_of_accepts`** — a whole text that is accepted to its end is a program.
-/

namespace Klex.Grammar

open Rule

/-- At the place the rule accepts a value and goes on at another place. -/
def Accepts {α : Type} (p : Rule α) (c : Cursor) (a : α) (d : Cursor) : Prop :=
  ∃ m, Runs p c (.accept a d) m

/-- At the place the rule rejects. -/
def Rejects {α : Type} (p : Rule α) (c : Cursor) : Prop := ∃ m, Runs p c .reject m

section

variable {α β : Type} {c d e : Cursor}

/-- What one run accepts, every run accepts. -/
theorem Uniform.accepts {p : Rule α} (hp : Uniform p) {a : α} {t u : Trail}
    (h : p c t = (.accept a d, u)) : Accepts p c a d := by
  obtain ⟨reply, m, hrun⟩ := hp c
  obtain ⟨rfl, -⟩ := by simpa using (hrun t).symm.trans h
  exact ⟨m, hrun⟩

theorem Uniform.rejects {p : Rule α} (hp : Uniform p) {t u : Trail}
    (h : p c t = (.reject, u)) : Rejects p c := by
  obtain ⟨reply, m, hrun⟩ := hp c
  obtain ⟨rfl, -⟩ := by simpa using (hrun t).symm.trans h
  exact ⟨m, hrun⟩

/-! ### Tokens -/

theorem Accepts.read {f : Token → Option α} {x : Token} {xs : List Token} {a : α}
    (h : c.rest = x :: xs) (hx : f x = some a) : Accepts (read f) c a ⟨c.index + 1, xs⟩ :=
  ⟨_, .read_some h hx⟩

theorem Accepts.token {kind : Kind} {x : Token} {xs : List Token} (h : c.rest = x :: xs)
    (hx : x.kind = kind) : Accepts (token kind) c x ⟨c.index + 1, xs⟩ :=
  Accepts.read h (by rw [if_pos hx])

/-- One token is read from one place to the next. -/
theorem Read.read {f : Token → Option α} {x : Token} {a : α} (h : Read c [x] d)
    (hx : f x = some a) : Accepts (read f) c a d := by
  have hread := Accepts.read h.head hx
  obtain ⟨index, rest⟩ := d
  obtain rfl : index = c.index + 1 := h.index
  exact hread

theorem Read.token {kind : Kind} {x : Token} (h : Read c [x] d) (hx : x.kind = kind) :
    Accepts (token kind) c x d :=
  h.read (by rw [if_pos hx])

theorem Read.keyword {text : String} {x : Token} (h : Read c [x] d) (hx : x.IsWord text) :
    Accepts (keyword text) c x d :=
  h.read (by simp [hx.1, hx.2])

theorem Rejects.read {f : Token → Option α} (h : ∀ x xs, c.rest = x :: xs → f x = none) :
    Rejects (Rule.read f) c := ⟨_, .read_none h⟩

theorem Rejects.token {kind : Kind} (h : ∀ x xs, c.rest = x :: xs → x.kind ≠ kind) :
    Rejects (Rule.token kind) c := by
  refine Rejects.read fun x xs hx => ?_
  rw [if_neg (h x xs hx)]

theorem Rejects.keyword {text : String} (h : ∀ x xs, c.rest = x :: xs → ¬ x.IsWord text) :
    Rejects (Rule.keyword text) c := by
  refine Rejects.read fun x xs hx => ?_
  rw [if_neg]
  simpa [Token.IsWord] using h x xs hx

/-- Where the next token is not of some kinds, no token of such a kind is read. -/
theorem Rejects.token_of {f : Kind → Bool} {kind : Kind}
    (h : ∀ x xs, c.rest = x :: xs → f x.kind = false) (hk : f kind = true) :
    Rejects (Rule.token kind) c := by
  refine Rejects.token fun x xs hx hkind => ?_
  rw [← hkind, h x xs hx] at hk
  exact absurd hk (by decide)

section

variable {x : Token} {xs : List Token}

/-- What holds of the next token holds of whatever comes next. -/
theorem next_of_cons {P : Token → Prop} (h : c.rest = x :: xs) (hx : P x) :
    ∀ y ys, c.rest = y :: ys → P y := by
  intro y ys hy
  obtain ⟨rfl, -⟩ := by simpa [h] using hy
  exact hx

theorem Rejects.read_cons {f : Token → Option α} (h : c.rest = x :: xs) (hx : f x = none) :
    Rejects (Rule.read f) c :=
  .read (next_of_cons h hx)

theorem Rejects.token_cons {kind : Kind} (h : c.rest = x :: xs) (hx : x.kind ≠ kind) :
    Rejects (Rule.token kind) c :=
  .token (next_of_cons h hx)

theorem Rejects.keyword_cons {text : String} (h : c.rest = x :: xs) (hx : ¬ x.IsWord text) :
    Rejects (Rule.keyword text) c :=
  .keyword (next_of_cons h hx)

end

/-! ### Composed rules -/

theorem Accepts.pure (a : α) : Accepts (pure a) c a c := ⟨_, .pure a⟩

theorem Accepts.bind {p : Rule α} {f : α → Rule β} {a : α} {b : β} (h : Accepts p c a d)
    (hf : Accepts (f a) d b e) : Accepts (p >>= f) c b e := by
  obtain ⟨m, hm⟩ := h
  obtain ⟨k, hk⟩ := hf
  exact ⟨_, hm.bind_accept hk⟩

theorem Accepts.bind_rejects {p : Rule α} {f : α → Rule β} {a : α} (h : Accepts p c a d)
    (hf : Rejects (f a) d) : Rejects (p >>= f) c := by
  obtain ⟨m, hm⟩ := h
  obtain ⟨k, hk⟩ := hf
  exact ⟨_, hm.bind_accept hk⟩

theorem Rejects.bind {p : Rule α} {f : α → Rule β} (h : Rejects p c) : Rejects (p >>= f) c := by
  obtain ⟨m, hm⟩ := h
  exact ⟨_, hm.bind_reject⟩

theorem Accepts.orElse {p q : Rule α} {a : α} (h : Accepts p c a d) : Accepts (p <|> q) c a d := by
  obtain ⟨m, hm⟩ := h
  exact ⟨_, hm.orElse_accept⟩

theorem Rejects.orElse_accepts {p q : Rule α} {a : α} (h : Rejects p c) (hq : Accepts q c a d) :
    Accepts (p <|> q) c a d := by
  obtain ⟨m, hm⟩ := h
  obtain ⟨k, hk⟩ := hq
  exact ⟨_, hm.orElse_reject hk⟩

theorem Rejects.orElse {p q : Rule α} (h : Rejects p c) (hq : Rejects q c) :
    Rejects (p <|> q) c := by
  obtain ⟨m, hm⟩ := h
  obtain ⟨k, hk⟩ := hq
  exact ⟨_, hm.orElse_reject hk⟩

theorem Accepts.optional {p : Rule α} {a : α} (h : Accepts p c a d) :
    Accepts p.optional c (some a) d := by
  obtain ⟨m, hm⟩ := h
  exact ⟨_, hm.optional_accept⟩

theorem Rejects.optional {p : Rule α} (h : Rejects p c) : Accepts p.optional c none c := by
  obtain ⟨m, hm⟩ := h
  exact ⟨_, hm.optional_reject⟩

/-! ### Rows of items -/

/-- A bound that exceeds the number of tokens left is as good as any other. -/
theorem manyUpTo_eq_many {p : Rule α} {D : α → List Token → Prop} (hp : Reads p D)
    (hD : ∀ {a ts}, D a ts → ts ≠ []) :
    ∀ {k : Nat} {c : Cursor} (t : Trail), c.rest.length < k → manyUpTo p k c t = many p c t := by
  have hstep : ∀ (n : Nat) {k m : Nat} {c : Cursor} (t : Trail), c.rest.length < n → n ≤ k →
      n ≤ m → manyUpTo p k c t = manyUpTo p m c t := by
    intro n
    induction n with
    | zero =>
      intro k m c t hn
      exact absurd hn (Nat.not_lt_zero _)
    | succ n ih =>
      intro k m c t hn hk hm
      obtain ⟨k, rfl⟩ : ∃ k', k = k' + 1 := ⟨k - 1, by omega⟩
      obtain ⟨m, rfl⟩ : ∃ m', m = m' + 1 := ⟨m - 1, by omega⟩
      rcases hout : p c t with ⟨⟨a, d⟩ | _ | _, u⟩
      · -- the item has read a token, so the induction hypothesis applies to what is left
        obtain ⟨ts, hread, ha⟩ := hp.accepted hout
        have hlen : c.rest.length = ts.length + d.rest.length := by
          rw [hread.rest, List.length_append]
        have hpos := List.length_pos_iff.2 (hD ha)
        rw [manyUpTo_accept hout, manyUpTo_accept hout]
        show Rule.bind _ _ d u = Rule.bind _ _ d u
        rw [Rule.bind, Rule.bind, ih u (by omega) (Nat.le_of_succ_le_succ hk)
          (Nat.le_of_succ_le_succ hm)]
      · rw [manyUpTo_reject hout, manyUpTo_reject hout]
      · rw [manyUpTo_tooDeep hout, manyUpTo_tooDeep hout]
  intro k c t hk
  exact hstep (c.rest.length + 1) t (Nat.lt_succ_self _) hk (Nat.le_refl _)

theorem Accepts.many_nil {p : Rule α} (h : Rejects p c) : Accepts (many p) c [] c := by
  obtain ⟨m, hm⟩ := h
  exact ⟨m, fun t => manyUpTo_reject (hm t) _⟩

theorem Accepts.many_cons {p : Rule α} {D : α → List Token → Prop} (hp : Reads p D)
    (hD : ∀ {a ts}, D a ts → ts ≠ []) {a : α} {as : List α} (h : Accepts p c a d)
    (hs : Accepts (many p) d as e) : Accepts (many p) c (a :: as) e := by
  obtain ⟨m, hm⟩ := h
  obtain ⟨k, hk⟩ := hs
  refine ⟨max m k, fun t => ?_⟩
  obtain ⟨ts, hread, ha⟩ := hp.accepted (hm .empty)
  have hlen : c.rest.length = ts.length + d.rest.length := by
    rw [hread.rest, List.length_append]
  have hpos := List.length_pos_iff.2 (hD ha)
  have hmore : manyUpTo p c.rest.length d (t.note m) = (.accept as e, (t.note m).note k) := by
    rw [manyUpTo_eq_many hp hD _ (by omega), hk]
  rw [Rule.many, manyUpTo_accept (hm t), bind_accept hmore, pure_run, Trail.note_note]

theorem Accepts.placed {p : Rule α} {as : List α} (h : Accepts (many p) c as d) :
    Accepts (placed p) c (c.pos?, as) d :=
  Accepts.bind ⟨_, .pos?⟩ (h.bind (.pure _))

end

/-! ### First tokens -/

/-- The kinds of tokens that an expression begins with. -/
def beginsExpr : Kind → Bool
  | .negate | .identifier | .openParen => true
  | kind => kind.isLiteral

/-- The kinds of tokens that a statement begins with. -/
def beginsStmt : Kind → Bool
  | .openCurly => true
  | kind => beginsExpr kind

section

variable {r : Rules} {c : Cursor}

theorem rejects_binaryRest (left : Expr) (h : ∀ x xs, c.rest = x :: xs → x.kind ≠ .operator) :
    Rejects (binaryRest tight r left) c := by
  rw [binaryRest_tight]
  exact (Rejects.token h).bind

theorem rejects_callRest (callee : Expr) (h : ∀ x xs, c.rest = x :: xs → x.kind ≠ .openParen) :
    Rejects (callRest tight r callee) c := by
  rw [callRest_tight]
  exact (Rejects.token h).bind

theorem rejects_expressionFrom (h : ∀ x xs, c.rest = x :: xs → beginsExpr x.kind = false) :
    Rejects (expressionFrom tight r (basic tight r)) c := by
  have hatom : Rejects (read atom?) c := by
    refine Rejects.read fun x xs hx => ?_
    have hx := h x xs hx
    rcases hk : x.kind <;> simp_all [beginsExpr, atom?, Kind.isLiteral]
  have hgroup : Rejects (group tight r) c := (Rejects.token_of h rfl).bind
  have hnegation : Rejects (negation tight r) c := (Rejects.token_of h rfl).bind
  exact hnegation.orElse (hatom.orElse hgroup).bind

theorem rejects_bareStatement (he : Rejects (r.expression 1) c)
    (h : ∀ x xs, c.rest = x :: xs → beginsStmt x.kind = false) :
    Rejects (bareStatement tight r) c := by
  have hword : ∀ text, Rejects (keyword text) c := by
    intro text
    refine Rejects.keyword fun x xs hx hw => ?_
    have hx := h x xs hx
    rw [hw.1] at hx
    exact absurd hx (by decide)
  have hblock : Rejects (block tight r) c := (Rejects.token_of h rfl).bind
  have hcond : Rejects (condition tight r) c := (hword "if").bind
  have hret : Rejects (returning tight r) c := (hword "return").bind
  have hassign : Rejects (assignment tight r) c := (Rejects.token_of h rfl).bind
  exact hblock.orElse <| hcond.orElse <| hret.orElse <| hassign.orElse he.bind

end

/-- Without layout, a statement is what stands between the layout around it. -/
theorem endless_bareStatement (calls : Nat) :
    (endless tight).statement calls = bareStatement tight (endless tight) := by
  rw [endless_statement passes_tight, statementFrom_tight]

theorem rejects_expression {c : Cursor} {calls : Nat}
    (h : ∀ x xs, c.rest = x :: xs → beginsExpr x.kind = false) :
    Rejects ((endless tight).expression calls) c := by
  rw [endless_expression passes_tight]
  exact rejects_expressionFrom h

theorem rejects_statement {c : Cursor} {calls : Nat}
    (h : ∀ x xs, c.rest = x :: xs → beginsStmt x.kind = false) :
    Rejects ((endless tight).statement calls) c := by
  rw [endless_bareStatement]
  refine rejects_bareStatement (rejects_expression fun x xs hx => ?_) h
  have hx := h x xs hx
  rcases hk : x.kind <;> simp_all [beginsStmt, beginsExpr]

/-! ### Whole texts -/

theorem unlimited_of_accepts {row : List Token} {p : Program} {n : Nat}
    (h : Accepts (text tight (endless tight)) (.start row) p ⟨n, []⟩) :
    unlimited tight row = .ok p := by
  obtain ⟨m, hm⟩ := h
  rw [unlimited, hm]
  rfl

end Klex.Grammar
