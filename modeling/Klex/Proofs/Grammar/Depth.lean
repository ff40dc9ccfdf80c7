import Klex.Proofs.Grammar.Uniform
import Klex.Tree.Parse

/-!
# The grammar without a limit on nesting

The rules give up when they have no room for one more call.  What they come to otherwise does not
depend on the room, and with enough room for the tokens at hand they never give up.

* **`Refines`** — the first rule gives up or does what the second does.
* **`refines_rules`** — rules with less room refine rules with more, in either way of reading.
* **`Total`**, **`total_rules`** — on fewer than `n` tokens, room for `9 * n` calls is enough, and for
  those that lead to the rules.
* **`endless`** — the rules with as much room as the tokens at hand need; they go through
  themselves (`endless_expression`, `endless_statement`), so no room occurs in proofs about them.
* **`unlimited`** — what a row of tokens comes to when nesting is not limited.
* **`verdict_of_refines`** — a whole text gives up or comes to what it comes to with rules that its own
  refine.
* **`run_plain_eq_or`**, **`run_plain_eq`** — a run with a limit gives up or comes to the same, and
  comes to the same when the room is ample.

All this holds whatever stands between the symbols.
-/

namespace Klex.Grammar

open Rule

/-! ### More room -/

/-- The first rule gives up or does what the second does. -/
def Refines {α : Type} (p q : Rule α) : Prop :=
  ∀ c t, (p c t).1 = .tooDeep ∨ p c t = q c t

section

variable {α β : Type}

theorem Refines.refl (p : Rule α) : Refines p p := fun _ _ => .inr rfl

/-- Where the first rule does not give up, the second does the same. -/
theorem Refines.eq_of_ne {p q : Rule α} (h : Refines p q) {c : Cursor} {t : Trail}
    {out : Reply α × Trail} (hp : p c t = out) (hout : out.1 ≠ .tooDeep) : q c t = out := by
  rcases h c t with hdeep | heq
  · rw [hp] at hdeep
    exact absurd hdeep hout
  · rw [← heq, hp]

theorem Refines.tooDeep (q : Rule α) : Refines Rule.tooDeep q := fun _ _ => .inl rfl

theorem Refines.bind {p q : Rule α} {f g : α → Rule β} (h : Refines p q)
    (hf : ∀ a, Refines (f a) (g a)) : Refines (p >>= f) (q >>= g) := by
  intro c t
  rcases hp : p c t with ⟨⟨a, d⟩ | _ | _, u⟩
  · have hq : q c t = (.accept a d, u) := h.eq_of_ne hp (by simp)
    rw [bind_accept hp, bind_accept hq]
    exact hf a d u
  · have hq : q c t = (.reject, u) := h.eq_of_ne hp (by simp)
    rw [bind_reject hp, bind_reject hq]
    exact .inr rfl
  · rw [bind_tooDeep hp]
    exact .inl rfl

theorem Refines.orElse {p q p' q' : Rule α} (h : Refines p q) (h' : Refines p' q') :
    Refines (p <|> p') (q <|> q') := by
  intro c t
  rcases hp : p c t with ⟨⟨a, d⟩ | _ | _, u⟩
  · have hq : q c t = (.accept a d, u) := h.eq_of_ne hp (by simp)
    rw [orElse_accept hp, orElse_accept hq]
    exact .inr rfl
  · have hq : q c t = (.reject, u) := h.eq_of_ne hp (by simp)
    rw [orElse_reject hp, orElse_reject hq]
    exact h' c u
  · rw [orElse_tooDeep hp]
    exact .inl rfl

theorem Refines.optional {p q : Rule α} (h : Refines p q) : Refines p.optional q.optional := by
  intro c t
  rcases h c t with hp | hp
  · refine .inl ?_
    rcases hout : p c t with ⟨reply, u⟩
    rw [hout] at hp
    subst hp
    rw [optional_tooDeep hout]
  · refine .inr ?_
    rw [Rule.optional, Rule.optional, hp]

theorem Refines.remembered {p q : Rule Expr} (h : Refines p q) :
    Refines (Grammar.remembered p) (Grammar.remembered q) := by
  intro c t
  unfold Grammar.remembered
  rcases t.basics[c.index]? with _ | _ | ⟨e, d⟩
  · rcases hout : p c t with ⟨⟨e, d⟩ | _ | _, u⟩
    · have hq : q c t = (.accept e d, u) := h.eq_of_ne hout (by simp)
      simp [hq]
    · have hq : q c t = (.reject, u) := h.eq_of_ne hout (by simp)
      simp [hq]
    · exact .inl rfl
  · exact .inr rfl
  · exact .inr rfl

end

theorem refines_congruence (row : List Token) : Congruence row @Refines := by
  have hmany : ∀ {α : Type} {p q : Rule α}, Refines p q → Refines (many p) (many q) :=
    fun h c t => manyUpTo_congr (fun _ => .refl _) .bind .optional h (c.rest.length + 1) c t
  exact {
    pure := fun _ => .refl _
    read := fun _ => .refl _
    bind := .bind
    orElse := .orElse
    optional := .optional
    many := fun _ h => hmany h
    placed := fun _ h => (Refines.refl _).bind fun _ => (hmany h).bind fun _ => .refl _ }

variable {gap : Rule Unit}

/-- **Rules with less room refine rules with more.** -/
theorem refines_rules (hg : Passes gap) (reading : Reading) {d e : Nat} (hde : d ≤ e) :
    (rules gap reading d).Rel Refines Refines (rules gap reading e) := by
  induction d generalizing e with
  | zero => exact ⟨fun _ => Refines.tooDeep _, fun _ => Refines.tooDeep _⟩
  | succ d ih =>
    obtain ⟨e, rfl⟩ : ∃ e', e = e' + 1 := ⟨e - 1, by omega⟩
    have hrel := ih (Nat.le_of_succ_le_succ hde)
    obtain ⟨hse, hss⟩ := steady_rules (hg.steady []) reading d
    have hR := refines_congruence []
    have hb := hR.reading_basic reading (fun _ _ _ _ h => h.remembered) (hg.steady []) (.refl gap)
      hse hrel.expression
    exact hrel.push (hR.expressionFrom (hg.steady []) (.refl gap) hse hrel hb)
      (hR.statementFrom (.refl gap) hss hrel)

/-! ### Enough room -/

/-- In the row, where fewer than `n` tokens are left, the rule does not give up. -/
def Total {α : Type} (row : List Token) (n : Nat) (p : Rule α) : Prop :=
  ∀ c t, c.In row → t.Sane row → c.rest.length < n → (p c t).1 ≠ .tooDeep

section

variable {α β : Type} {row : List Token} {k n m : Nat}

theorem Total.zero (p : Rule α) : Total row 0 p := fun _ _ _ _ h => absurd h (Nat.not_lt_zero _)

theorem Total.mono {p : Rule α} (h : Total row m p) (hnm : n ≤ m) : Total row n p :=
  fun c t hc ht hn => h c t hc ht (Nat.lt_of_lt_of_le hn hnm)

theorem Total.pure (a : α) : Total row n (pure a : Rule α) := by
  intro c t _ _ _
  simp [pure_run]

theorem Total.pos? : Total row n Rule.pos? := by
  intro c t _ _ _
  simp [Rule.pos?]

theorem Total.read (f : Token → Option α) : Total row n (Rule.read f) := by
  intro c t _ _ _
  rcases hrest : c.rest with _ | ⟨x, xs⟩
  · simp [read_nil f t hrest]
  · rcases hx : f x with _ | a
    · simp [read_none t hrest hx]
    · simp [read_some t hrest hx]

theorem Passes.total (hg : Passes gap) : Total row n gap := by
  intro c t _ _ _
  obtain ⟨d, hd⟩ := hg.accepts c
  simp [hd t]

/-- One part after another, when the first one reads as many tokens as the second has fewer. -/
theorem Total.bind_steady {p : Rule α} {f : α → Rule β} (hp : Total row n p) (hs : Steady row k p)
    (hn : n ≤ m + k) (hf : ∀ a, Total row m (f a)) : Total row n (p >>= f) := by
  intro c t hc ht hlt
  rcases hout : p c t with ⟨⟨a, d⟩ | _ | _, u⟩
  · obtain ⟨hu, -, hread, hd⟩ := hs.accepted hc ht hout
    rw [bind_accept hout]
    refine hf a d u hd hu ?_
    have := hc.rest_length
    have := hd.rest_length
    omega
  · simp [bind_reject hout]
  · have := hp c t hc ht hlt
    simp [hout] at this

theorem Total.bind {p : Rule α} {f : α → Rule β} (hp : Total row n p) (hs : Steady row k p)
    (hf : ∀ a, Total row n (f a)) : Total row n (p >>= f) :=
  hp.bind_steady hs (Nat.le_add_right _ _) hf

/-- A token is read, and what follows has one token less. -/
theorem Total.read_bind {f : Token → Option α} {g : α → Rule β} (hg : ∀ a, Total row n (g a)) :
    Total row (n + 1) (Rule.read f >>= g) :=
  (Total.read f).bind_steady (Steady.read f) (Nat.le_refl _) hg

/-- A token is read, and what follows is not given less for it. -/
theorem Total.read_then {f : Token → Option α} {g : α → Rule β} (hg : ∀ a, Total row n (g a)) :
    Total row n (Rule.read f >>= g) :=
  (Total.read f).bind (Steady.read f) hg

/-- Something is passed over before the rule runs. -/
theorem Passes.total_bind (hg : Passes gap) {f : Unit → Rule α} (hf : ∀ a, Total row n (f a)) :
    Total row n (gap >>= f) :=
  hg.total.bind (hg.steady row) hf

theorem Total.orElse {p q : Rule α} (hp : Total row n p) (hs : Steady row k p)
    (hq : Total row n q) : Total row n (p <|> q) := by
  intro c t hc ht hlt
  rcases hout : p c t with ⟨⟨a, d⟩ | _ | _, u⟩
  · simp [orElse_accept hout]
  · rw [orElse_reject hout]
    exact hq c u hc (hs.rejected hc ht hout).1 hlt
  · have := hp c t hc ht hlt
    simp [hout] at this

theorem Total.optional {p : Rule α} (hp : Total row n p) : Total row n p.optional := by
  intro c t hc ht hlt
  rcases hout : p c t with ⟨⟨a, d⟩ | _ | _, u⟩
  · simp [optional_accept hout]
  · simp [optional_reject hout]
  · have := hp c t hc ht hlt
    simp [hout] at this

theorem Total.many {p : Rule α} (hp : Total row n p) (hs : Steady row k p) :
    Total row n (Rule.many p) := by
  have hupTo : ∀ k, Total row n (manyUpTo p k) := by
    intro k
    induction k with
    | zero => exact Total.pure []
    | succ k ih =>
      rw [manyUpTo_succ]
      refine hp.optional.bind hs.optional fun first => ?_
      cases first with
      | none => exact Total.pure []
      | some a => exact ih.bind (hs.manyUpTo k) fun _ => Total.pure _
  exact fun c t hc ht hlt => hupTo _ c t hc ht hlt

theorem Total.placed {p : Rule α} (hp : Total row n p) (hs : Steady row k p) :
    Total row n (Rule.placed p) :=
  Total.pos?.bind Steady.pos? fun _ => (hp.many hs).bind hs.many fun _ => Total.pure _

theorem Total.remembered {p : Rule Expr} (hp : Total row n p) :
    Total row n (Grammar.remembered p) := by
  intro c t hc ht hlt
  unfold Grammar.remembered
  rcases t.basics[c.index]? with _ | _ | ⟨e, d⟩
  · rcases hout : p c t with ⟨⟨e, d⟩ | _ | _, u⟩
    · simp
    · simp
    · have := hp c t hc ht hlt
      simp [hout] at this
  · simp
  · simp

theorem Total.commaList (hg : Passes gap) {item : Rule α} (h : Total row n item)
    (hs : Steady row 1 item) (trailing : Bool) :
    Total row n (Grammar.commaList gap item trailing) := by
  have hmore : Total row n (afterComma gap item) :=
    hg.total_bind fun _ => Total.read_then fun _ => hg.total_bind fun _ => h
  refine hg.total_bind fun _ => h.optional.bind hs.optional fun first =>
    (hmore.many (steady_afterComma (hg.steady row) hs)).bind
      (steady_afterComma (hg.steady row) hs).many fun more => ?_
  have hclose : Total row n (do
      gap
      let _ ← Rule.token .closeParen
      return first.toList ++ more) :=
    hg.total_bind fun _ => Total.read_then fun _ => Total.pure _
  cases trailing with
  | false => exact hclose
  | true =>
    have hcomma : Total row n (do gap; Rule.token .comma) := hg.total_bind fun _ => Total.read _
    exact hcomma.optional.bind
      ((hg.steady row).bind_right fun _ => Steady.token .comma).optional fun _ => hclose

end

section

variable {row : List Token} {n : Nat} {r : Rules}

theorem total_basic (hg : Passes gap) (he : ∀ calls, Steady row 1 (r.expression calls))
    (h : Total row n (r.expression 6)) : Total row (n + 1) (basic gap r) :=
  (Total.read _).orElse (Steady.read _) <| Total.read_bind fun _ => hg.total_bind fun _ =>
    h.bind (he 6) fun _ => hg.total_bind fun _ => Total.read_then fun _ => Total.pure _

theorem total_expressionFrom (hg : Passes gap) (hr : r.All (Steady row 1) (Steady row 1))
    {b : Rule Expr} (hb : Total row (n + 1) b) (hsb : Steady row 1 b)
    (he : ∀ calls ≤ 6, Total row n (r.expression calls)) (hs : Total row n (r.statement 3)) :
    Total row (n + 1) (expressionFrom gap r b) := by
  have hnegation : Total row (n + 1) (negation gap r) :=
    Total.read_bind fun _ => hg.total_bind fun _ => (he 2 (by decide)).bind (hr.expression 2) fun _ =>
      Total.pure _
  have hbinary : ∀ left, Total row n (binaryRest gap r left) := fun left =>
    hg.total_bind fun _ => Total.read_then fun _ => hg.total_bind fun _ =>
      (he 2 (by decide)).bind (hr.expression 2) fun _ => Total.pure _
  have hcall : ∀ callee, Total row n (callRest gap r callee) := by
    intro callee
    refine hg.total_bind fun _ => Total.read_then fun _ => ?_
    split
    · exact (Total.commaList hg (Total.read _) steady_parameter true).bind
        (steady_commaList (hg.steady row) steady_parameter true) fun _ =>
          hs.bind (hr.statement 3) fun _ => Total.pure _
    · exact (Total.commaList hg (he 4 (by decide)) (hr.expression 4) false).bind
        (steady_commaList (hg.steady row) (hr.expression 4) false) fun _ => Total.pure _
  have hsteady := hg.steady row
  exact hnegation.orElse (steady_negation hsteady hr.expression) <|
    hb.bind_steady hsb (Nat.le_refl _) fun left =>
      (hbinary left).orElse (steady_binaryRest hsteady hr.expression left) <|
        (hcall left).orElse (steady_callRest hsteady hr.expression hr.statement left) (Total.pure left)

theorem total_statementFrom (hg : Passes gap) (hr : r.All (Steady row 1) (Steady row 1))
    (h : Total row (n + 1) (r.expression 1)) (he : Total row n (r.expression 2))
    (hs : ∀ calls ≤ 4, Total row n (r.statement calls)) :
    Total row (n + 1) (statementFrom gap r) := by
  have hsteady := hg.steady row
  have hstatements : Total row n (statements gap (r.statement 4)) :=
    hg.total_bind fun _ => (hs 4 (by decide)).placed (hr.statement 4)
  have hblock : Total row (n + 1) (block gap r) :=
    Total.read_bind fun _ => hstatements.bind (steady_statements hsteady (hr.statement 4)) fun _ =>
      hg.total_bind fun _ => Total.read_then fun _ => Total.pure _
  have hkeyword : Total row n (do gap; keyword "else") := hg.total_bind fun _ => Total.read _
  have helse : Total row n (elseBranch gap r) := by
    refine hkeyword.optional.bind (hsteady.bind_right fun _ => Steady.read _).optional fun found => ?_
    cases found with
    | none => exact Total.pure none
    | some _ => exact (hs 2 (by decide)).bind (hr.statement 2) fun _ => Total.pure _
  have hcond : Total row (n + 1) (condition gap r) :=
    Total.read_bind fun _ => hg.total_bind fun _ => Total.read_then fun _ => hg.total_bind fun _ =>
      he.bind (hr.expression 2) fun _ => hg.total_bind fun _ => Total.read_then fun _ =>
        (hs 2 (by decide)).bind (hr.statement 2) fun _ =>
          helse.bind (steady_elseBranch hsteady hr.statement) fun _ => Total.pure _
  have hret : Total row (n + 1) (returning gap r) :=
    Total.read_bind fun _ => hg.total_bind fun _ => he.bind (hr.expression 2) fun _ => Total.pure _
  have hassign : Total row (n + 1) (assignment gap r) :=
    Total.read_bind fun _ => hg.total_bind fun _ => Total.read_then fun _ => hg.total_bind fun _ =>
      he.bind (hr.expression 2) fun _ => Total.pure _
  have hbare : Total row (n + 1) (bareStatement gap r) :=
    hblock.orElse (steady_block hsteady hr.statement) <|
      hcond.orElse (steady_condition hsteady hr.expression hr.statement) <|
        hret.orElse (steady_returning hsteady hr.expression) <|
          hassign.orElse (steady_assignment hsteady hr.expression) <|
            h.bind (hr.expression 1) fun _ => Total.pure _
  exact hg.total_bind fun _ => hbare.bind (steady_bareStatement hsteady hr.expression hr.statement)
    fun _ => hg.total_bind fun _ => Total.pure _

/-- **On fewer than `n` tokens, room for `9 * n` calls is enough** and for those that lead to the rule; a
statement needs two more. -/
theorem total_rules (hg : Passes gap) (reading : Reading) (row : List Token) (room : Nat) :
    ∀ n calls,
      (9 * n + calls ≤ room → Total row n ((rules gap reading room).expression calls)) ∧
        (9 * n + calls + 2 ≤ room → Total row n ((rules gap reading room).statement calls)) := by
  induction room with
  | zero =>
    intro n calls
    refine ⟨fun hn => ?_, fun hn => ?_⟩
    · obtain rfl : n = 0 := by omega
      exact Total.zero _
    · omega
  | succ room ih =>
    intro n calls
    have hr := steady_rules (hg.steady row) reading room
    rcases calls with _ | calls
    · rcases n with _ | n
      · exact ⟨fun _ => Total.zero _, fun _ => Total.zero _⟩
      · refine ⟨fun hn => ?_, fun hn => ?_⟩
        · have he : ∀ calls ≤ 6, Total row n ((rules gap reading room).expression calls) :=
            fun calls hcalls => (ih n calls).1 (by omega)
          have hb : Total row (n + 1) (reading.basic gap (rules gap reading room)) := by
            cases reading with
            | plain => exact total_basic hg hr.expression (he 6 (Nat.le_refl _))
            | remembering => exact (total_basic hg hr.expression (he 6 (Nat.le_refl _))).remembered
          exact total_expressionFrom hg hr hb
            (steady_reading_basic reading (hg.steady row) hr.expression) he
            ((ih n 3).2 (by omega))
        · exact total_statementFrom hg hr ((ih (n + 1) 1).1 (by omega)) ((ih n 2).1 (by omega))
            fun calls hcalls => (ih n calls).2 (by omega)
    · obtain ⟨he, hs⟩ := ih n calls
      exact ⟨fun hn => he (by omega), fun hn => hs (by omega)⟩

end

/-! ### No limit -/

/-- As much room as the tokens from the place on can need. -/
def ample (c : Cursor) : Nat := 9 * c.rest.length + 13

/-- The rules with as much room as the tokens at hand can need, however they are reached. -/
def endless (gap : Rule Unit) : Rules where
  expression := fun _ c t => (rules gap .plain (ample c)).expression 0 c t
  statement := fun _ c t => (rules gap .plain (ample c)).statement 0 c t

/-- The calls that lead to a rule take their share of the room. -/
theorem rules_reach (gap : Rule Unit) (reading : Reading) (room calls : Nat) :
    (rules gap reading (room + calls)).expression calls = (rules gap reading room).expression 0 ∧
      (rules gap reading (room + calls)).statement calls = (rules gap reading room).statement 0 := by
  induction calls with
  | zero => exact ⟨rfl, rfl⟩
  | succ calls ih => exact ih

/-- Every place lies in some row. -/
theorem Cursor.exists_in (c : Cursor) : ∃ row, c.In row := by
  let filler : Token := ⟨.unknown, "", 0, .null, none, true, Kind.unnamed rfl⟩
  refine ⟨List.replicate c.index filler ++ c.rest, ?_, ?_⟩
  · exact (List.drop_left' List.length_replicate).symm
  · rw [List.length_append, List.length_replicate]
    exact Nat.le_add_right _ _

/-- A rule that does not look at the trail gives up on every trail or on none. -/
theorem Uniform.ne_tooDeep {α : Type} {p : Rule α} (h : Uniform p) {c : Cursor} {t : Trail}
    (hp : (p c t).1 ≠ .tooDeep) (u : Trail) : (p c u).1 ≠ .tooDeep := by
  obtain ⟨reply, m, hrun⟩ := h c
  rw [hrun] at hp ⊢
  exact hp

theorem total_ample (hg : Passes gap) {c : Cursor} {room : Nat} (h : ample c ≤ room) (t : Trail) :
    ((rules gap .plain room).expression 0 c t).1 ≠ .tooDeep ∧
      ((rules gap .plain room).statement 0 c t).1 ≠ .tooDeep := by
  unfold ample at h
  obtain ⟨row, hc⟩ := c.exists_in
  obtain ⟨hue, hus⟩ := uniform_rules hg room
  obtain ⟨he, hs⟩ := total_rules hg .plain row room (c.rest.length + 1) 0
  exact ⟨(hue 0).ne_tooDeep
      (he (by omega) c .empty hc (Trail.sane_empty row) (Nat.lt_succ_self _)) t,
    (hus 0).ne_tooDeep
      (hs (by omega) c .empty hc (Trail.sane_empty row) (Nat.lt_succ_self _)) t⟩

/-- Enough room is as good as any amount of it. -/
theorem endless_of_ample (hg : Passes gap) {c : Cursor} {room : Nat} (h : ample c ≤ room)
    (calls : Nat) (t : Trail) :
    (rules gap .plain room).expression 0 c t = (endless gap).expression calls c t ∧
      (rules gap .plain room).statement 0 c t = (endless gap).statement calls c t := by
  obtain ⟨he, hs⟩ := refines_rules hg .plain h
  obtain ⟨hte, hts⟩ := total_ample hg (Nat.le_refl (ample c)) t
  exact ⟨(he 0).eq_of_ne rfl hte, (hs 0).eq_of_ne rfl hts⟩

theorem refines_endless (hg : Passes gap) (room : Nat) :
    (rules gap .plain room).Rel Refines Refines (endless gap) := by
  -- with as many more calls as lead to the rule, the room is what the rule has when it is reached
  refine ⟨fun calls c t => ?_, fun calls c t => ?_⟩
  · rw [← (endless_of_ample hg (Nat.le_max_right room (ample c)) calls t).1,
      ← (rules_reach gap .plain (max room (ample c)) calls).1]
    exact (refines_rules hg .plain
      (Nat.le_trans (Nat.le_max_left room (ample c)) (Nat.le_add_right _ calls))).expression calls c t
  · rw [← (endless_of_ample hg (Nat.le_max_right room (ample c)) calls t).2,
      ← (rules_reach gap .plain (max room (ample c)) calls).2]
    exact (refines_rules hg .plain
      (Nat.le_trans (Nat.le_max_left room (ample c)) (Nat.le_add_right _ calls))).statement calls c t

/-- The rules without a limit go through themselves. -/
theorem endless_expression (hg : Passes gap) (calls : Nat) :
    (endless gap).expression calls =
      expressionFrom gap (endless gap) (basic gap (endless gap)) := by
  funext c t
  have hrel := refines_endless hg (ample c)
  have hsteady := (steady_rules (hg.steady []) .plain (ample c)).expression
  have hR := refines_congruence []
  have habove : Refines ((rules gap .plain (ample c + 1)).expression 0)
      (expressionFrom gap (endless gap) (basic gap (endless gap))) :=
    hR.expressionFrom (hg.steady []) (.refl gap) hsteady hrel
      (hR.basic (.refl gap) hrel.expression)
  rw [← (endless_of_ample hg (Nat.le_succ (ample c)) calls t).1]
  exact (habove.eq_of_ne rfl (total_ample hg (Nat.le_succ _) t).1).symm

theorem endless_statement (hg : Passes gap) (calls : Nat) :
    (endless gap).statement calls = statementFrom gap (endless gap) := by
  funext c t
  have hrel := refines_endless hg (ample c)
  have habove : Refines ((rules gap .plain (ample c + 1)).statement 0)
      (statementFrom gap (endless gap)) :=
    (refines_congruence []).statementFrom (.refl gap)
      (steady_rules (hg.steady []) .plain (ample c)).statement hrel
  rw [← (endless_of_ample hg (Nat.le_succ (ample c)) calls t).2]
  exact (habove.eq_of_ne rfl (total_ample hg (Nat.le_succ _) t).2).symm

theorem steady_endless (hg : Passes gap) (row : List Token) :
    (endless gap).All (Steady row 1) (Steady row 1) :=
  ⟨fun _ c t hc ht => (steady_rules (hg.steady row) .plain (ample c)).expression 0 c t hc ht,
    fun _ c t hc ht => (steady_rules (hg.steady row) .plain (ample c)).statement 0 c t hc ht⟩

theorem uniform_endless (hg : Passes gap) : (endless gap).All Uniform Uniform := by
  refine ⟨fun _ c => ?_, fun _ c => ?_⟩
  · obtain ⟨reply, m, h⟩ := (uniform_rules hg (ample c)).expression 0 c
    exact ⟨reply, m, fun t => h t⟩
  · obtain ⟨reply, m, h⟩ := (uniform_rules hg (ample c)).statement 0 c
    exact ⟨reply, m, fun t => h t⟩

/-! ### Whole texts -/

/-- The outcome is a refusal because of the nesting. -/
def GaveUp (outcome : Except Refusal Program) : Prop := ∃ index, outcome = .error (.tooDeep index)

/-- What a row of tokens comes to when nesting is not limited. -/
def unlimited (gap : Rule Unit) (row : List Token) : Except Refusal Program :=
  verdict (text gap (endless gap) (.start row) .empty)

theorem verdict_tooDeep {out : Reply Program × Trail} : GaveUp (verdict out) ↔ out.1 = .tooDeep := by
  unfold GaveUp
  rcases out with ⟨⟨p, next⟩ | _ | _, trail⟩
  · simp only [verdict]
    split <;> simp
  · simp [verdict]
  · simp [verdict]

theorem verdict_accept {p : Program} {next : Cursor} {trail : Trail} (h : next.rest ≠ []) :
    verdict (.accept p next, trail) = .error (.stuckAt (max trail.furthest next.index)) := by
  rw [verdict, if_neg]
  rwa [List.isEmpty_iff]

theorem verdict_ok {out : Reply Program × Trail} {p : Program} (h : verdict out = .ok p) :
    ∃ next trail, out = (.accept p next, trail) ∧ next.rest = [] := by
  rcases out with ⟨⟨q, next⟩ | _ | _, trail⟩
  · rw [verdict] at h
    split at h
    · next hempty =>
      obtain rfl := Except.ok.inj h
      exact ⟨next, trail, rfl, List.isEmpty_iff.1 hempty⟩
    · simp at h
  · simp [verdict] at h
  · simp [verdict] at h

/-- A text is stuck where it was read to, or further on if some rule got there. -/
theorem verdict_stuckAt {out : Reply Program × Trail} {index : Nat}
    (h : verdict out = .error (.stuckAt index)) :
    (∃ p next trail, out = (.accept p next, trail) ∧ next.rest ≠ [] ∧
        max trail.furthest next.index = index) ∨
      ∃ trail, out = (.reject, trail) ∧ trail.furthest = index := by
  rcases out with ⟨⟨p, next⟩ | _ | _, trail⟩
  · left
    by_cases hempty : next.rest = []
    · simp [verdict, hempty] at h
    · rw [verdict_accept hempty] at h
      exact ⟨p, next, trail, rfl, hempty, by simpa using h⟩
  · right
    exact ⟨trail, rfl, by simpa [verdict] using h⟩
  · simp [verdict] at h

/-- A whole text gives up or comes to what it comes to with rules that its own rules refine. -/
theorem verdict_of_refines {r s : Rules} (hs : ∀ calls, Steady [] 1 (r.statement calls))
    (h : r.Rel Refines Refines s) (row : List Token) :
    GaveUp (verdict (text gap r (.start row) .empty)) ∨
      verdict (text gap r (.start row) .empty) = verdict (text gap s (.start row) .empty) := by
  rcases (refines_congruence []).text (.refl gap) hs h (.start row) .empty with hdeep | heq
  · exact .inl (verdict_tooDeep.2 hdeep)
  · exact .inr (congrArg verdict heq)

/-- More room does not change what a run comes to. -/
theorem run_mono (hg : Passes gap) (reading : Reading) {d e : Nat} (hde : d ≤ e)
    (row : List Token) :
    GaveUp (run gap reading d row) ∨ run gap reading d row = run gap reading e row :=
  verdict_of_refines (steady_rules (hg.steady []) reading d).statement (refines_rules hg reading hde)
    row

/-- **A run with a limit gives up or comes to what it comes to without one.** -/
theorem run_plain_eq_or (hg : Passes gap) (room : Nat) (row : List Token) :
    GaveUp (run gap .plain room row) ∨ run gap .plain room row = unlimited gap row :=
  verdict_of_refines (steady_rules (hg.steady []) .plain room).statement (refines_endless hg room) row

/-- **With ample room no run gives up.** -/
theorem run_not_gaveUp (hg : Passes gap) (reading : Reading) {room : Nat} {row : List Token}
    (h : ample (.start row) ≤ room) : ¬ GaveUp (run gap reading room row) := by
  unfold ample at h
  rw [run, verdict_tooDeep]
  have hs : Total row (row.length + 1) ((rules gap reading room).statement 2) :=
    (total_rules hg reading row room _ 2).2 (by simp only [Cursor.start] at h; omega)
  have hsteady := (steady_rules (hg.steady row) reading room).statement 2
  have hstatements : Total row (row.length + 1)
      (statements gap ((rules gap reading room).statement 2)) :=
    hg.total_bind fun _ => hs.placed hsteady
  have htext : Total row (row.length + 1) (text gap (rules gap reading room)) :=
    hstatements.bind (steady_statements (hg.steady row) hsteady) fun _ => hg.total_bind fun _ =>
      Total.pure _
  exact htext _ _ (Cursor.start_in row) (Trail.sane_empty row) (Nat.lt_succ_self _)

/-- **With ample room a run comes to what it comes to without a limit.** -/
theorem run_plain_eq (hg : Passes gap) {room : Nat} {row : List Token}
    (h : ample (.start row) ≤ room) : run gap .plain room row = unlimited gap row :=
  (run_plain_eq_or hg room row).resolve_left (run_not_gaveUp hg .plain h)

end Klex.Grammar
