import Klex.Proofs.Grammar.Rule

/-!
# Progress through a row of tokens

What a run of a rule can do to the place and to the trail, whatever the rule is.

* **`Cursor.In`** — the place lies in the row: its rest is what follows in the row.
* **`Trail.Sane`** — the trail speaks of the row: the furthest index is at most its length, a
  remembered expression ends behind its start, and where none was found the furthest index has come
  at least that far.
* **`Step`** — one run: the trail stays sane and its furthest index does not fall; on acceptance at
  least `k` tokens are read; on rejection the furthest index has come at least to the start.
* **`Steady`** — every run of the rule is such a step.
* **`Passes`** — what is asked of a rule for that which stands between the symbols.
* **`steady_rules`** — the rules for expressions and statements read at least one token whenever they
  accept, whatever stands between the symbols, in either way of reading and with any room.
-/

namespace Klex.Grammar

open Rule

/-- The place lies in the row. -/
structure Cursor.In (row : List Token) (c : Cursor) : Prop where
  rest : c.rest = row.drop c.index
  bound : c.index ≤ row.length

theorem Cursor.start_in (row : List Token) : (Cursor.start row).In row :=
  ⟨rfl, Nat.zero_le _⟩

theorem Cursor.In.rest_length {row : List Token} {c : Cursor} (h : c.In row) :
    c.index + c.rest.length = row.length := by
  rw [h.rest, List.length_drop]
  have := h.bound
  omega

/-- The place behind some of the tokens that come next. -/
theorem Cursor.In.behind {row : List Token} {c : Cursor} {ts us : List Token} (hc : c.In row)
    (h : c.rest = ts ++ us) : (Cursor.mk (c.index + ts.length) us).In row where
  rest := by
    show us = row.drop (c.index + ts.length)
    rw [← List.drop_drop, ← hc.rest, h, List.drop_left]
  bound := by
    have hlength := hc.rest_length
    rw [h, List.length_append] at hlength
    show c.index + ts.length ≤ row.length
    omega

theorem Cursor.In.next {row : List Token} {c : Cursor} {x : Token} {xs : List Token}
    (hc : c.In row) (h : c.rest = x :: xs) : (Cursor.mk (c.index + 1) xs).In row :=
  hc.behind (show c.rest = [x] ++ xs from h)

theorem Cursor.In.settle {row : List Token} {c : Cursor} (hc : c.In row) : c.settle.In row :=
  hc.behind List.takeWhile_append_dropWhile.symm

theorem Cursor.In.rest_ne_nil {row : List Token} {c : Cursor} (h : c.In row)
    (hlt : c.index < row.length) : c.rest ≠ [] := by
  have hlength := h.rest_length
  rw [← List.length_pos_iff]
  omega

/-- The trail speaks of the row. -/
structure Trail.Sane (row : List Token) (t : Trail) : Prop where
  bound : t.furthest ≤ row.length
  found : ∀ {n : Nat} {e : Expr} {d : Cursor}, t.basics[n]? = some (some (e, d)) →
    n < d.index ∧ d.In row
  missed : ∀ {n : Nat}, t.basics[n]? = some none → n ≤ t.furthest

theorem Trail.sane_empty (row : List Token) : Trail.empty.Sane row where
  bound := Nat.zero_le _
  found := by
    intro n e d h
    simp [Trail.empty] at h
  missed := by
    intro n h
    simp [Trail.empty] at h

theorem Trail.Sane.note {row : List Token} {t : Trail} (h : t.Sane row) {n : Nat}
    (hn : n ≤ row.length) : (t.note n).Sane row where
  bound := Nat.max_le.2 ⟨h.bound, hn⟩
  found := h.found
  missed := fun hm => Nat.le_trans (h.missed hm) (Nat.le_max_left _ _)

/-- One more entry: an expression that ends behind the index, or none where the furthest index has
come that far. -/
theorem Trail.Sane.remember {row : List Token} {t : Trail} (h : t.Sane row) {n : Nat}
    {entry : Option (Expr × Cursor)}
    (hfound : ∀ {e d}, entry = some (e, d) → n < d.index ∧ d.In row)
    (hmissed : entry = none → n ≤ t.furthest) : (t.remember n entry).Sane row where
  bound := h.bound
  found := by
    intro m e d hm
    simp only [Trail.remember, Std.HashMap.getElem?_insert] at hm
    split at hm
    · next heq =>
      rw [← eq_of_beq heq]
      exact hfound (Option.some.inj hm)
    · exact h.found hm
  missed := by
    intro m hm
    simp only [Trail.remember, Std.HashMap.getElem?_insert] at hm
    split at hm
    · next heq =>
      rw [← eq_of_beq heq]
      exact hmissed (Option.some.inj hm)
    · exact h.missed hm

/-- One run of a rule from a place and a trail. -/
inductive Step {α : Type} (row : List Token) (k : Nat) (c : Cursor) (t : Trail) :
    Reply α × Trail → Prop
  | accept {a : α} {d : Cursor} {u : Trail} : u.Sane row → t.furthest ≤ u.furthest →
      c.index + k ≤ d.index → d.In row → Step row k c t (.accept a d, u)
  | reject {u : Trail} : u.Sane row → t.furthest ≤ u.furthest → c.index ≤ u.furthest →
      Step row k c t (.reject, u)
  | tooDeep {u : Trail} : u.Sane row → t.furthest ≤ u.furthest → Step row k c t (.tooDeep, u)

/-- Every run of the rule in the row is a step that reads at least `k` tokens on acceptance. -/
def Steady {α : Type} (row : List Token) (k : Nat) (p : Rule α) : Prop :=
  ∀ c t, c.In row → t.Sane row → Step row k c t (p c t)

section

variable {α β : Type} {row : List Token} {k m : Nat}

/-- A step that starts where another one ended. -/
theorem Step.after {c d : Cursor} {t u : Trail} {out : Reply α × Trail}
    (h : Step row m d u out) (hi : c.index + k ≤ d.index) (hf : t.furthest ≤ u.furthest) :
    Step row (k + m) c t out := by
  cases h with
  | accept hs hm ha hd => exact .accept hs (Nat.le_trans hf hm) (by omega) hd
  | reject hs hm hr => exact .reject hs (Nat.le_trans hf hm) (by omega)
  | tooDeep hs hm => exact .tooDeep hs (Nat.le_trans hf hm)

theorem Steady.mono {p : Rule α} (h : Steady row m p) (hk : k ≤ m) : Steady row k p := by
  intro c t hc ht
  cases hout : p c t with
  | mk reply u =>
    have hs := h c t hc ht
    rw [hout] at hs
    cases hs with
    | accept hs hm ha hd => exact .accept hs hm (by omega) hd
    | reject hs hm hr => exact .reject hs hm hr
    | tooDeep hs hm => exact .tooDeep hs hm

/-! ### What a steady rule tells about a run -/

theorem Steady.accepted {p : Rule α} (h : Steady row k p) {c d : Cursor} {t u : Trail} {a : α}
    (hc : c.In row) (ht : t.Sane row) (hp : p c t = (.accept a d, u)) :
    u.Sane row ∧ t.furthest ≤ u.furthest ∧ c.index + k ≤ d.index ∧ d.In row := by
  have hs := h c t hc ht
  rw [hp] at hs
  cases hs with
  | accept hs hm ha hd => exact ⟨hs, hm, ha, hd⟩

theorem Steady.rejected {p : Rule α} (h : Steady row k p) {c : Cursor} {t u : Trail}
    (hc : c.In row) (ht : t.Sane row) (hp : p c t = (.reject, u)) :
    u.Sane row ∧ t.furthest ≤ u.furthest ∧ c.index ≤ u.furthest := by
  have hs := h c t hc ht
  rw [hp] at hs
  cases hs with
  | reject hs hm hr => exact ⟨hs, hm, hr⟩

/-! ### Composed rules -/

theorem Steady.pure (a : α) : Steady row 0 (pure a : Rule α) := by
  intro c t hc ht
  exact .accept ht (Nat.le_refl _) (Nat.le_refl _) hc

theorem Steady.tooDeep : Steady row k (Rule.tooDeep : Rule α) := by
  intro c t hc ht
  exact .tooDeep ht (Nat.le_refl _)

theorem Steady.pos? : Steady row 0 Rule.pos? := by
  intro c t hc ht
  exact .accept ht (Nat.le_refl _) (Nat.le_refl _) hc

theorem Steady.skip : Steady row 0 Rule.skip := by
  intro c t hc ht
  exact .accept ht (Nat.le_refl _) (Nat.le_add_right _ _) hc.settle

theorem Steady.read (f : Token → Option α) : Steady row 1 (Rule.read f) := by
  intro c t hc ht
  have hnote : Step row 1 c t ((.reject, t.note c.index) : Reply α × Trail) :=
    .reject (ht.note hc.bound) (Nat.le_max_left _ _) (Nat.le_max_right _ _)
  rcases hrest : c.rest with _ | ⟨x, xs⟩
  · rw [read_nil f t hrest]
    exact hnote
  · rcases hx : f x with _ | a
    · rw [read_none t hrest hx]
      exact hnote
    · rw [read_some t hrest hx]
      exact .accept ht (Nat.le_refl _) (Nat.le_refl _) (hc.next hrest)

theorem Steady.token (kind : Kind) : Steady row 1 (Rule.token kind) := Steady.read _

theorem Steady.bind {p : Rule α} {f : α → Rule β} (hp : Steady row k p)
    (hf : ∀ a, Steady row m (f a)) : Steady row (k + m) (p >>= f) := by
  intro c t hc ht
  rcases hout : p c t with ⟨⟨a, d⟩ | _ | _, u⟩
  · rw [bind_accept hout]
    obtain ⟨hs, hm, ha, hd⟩ := hp.accepted hc ht hout
    exact (hf a d u hd hs).after ha hm
  · rw [bind_reject hout]
    obtain ⟨hs, hm, hr⟩ := hp.rejected hc ht hout
    exact .reject hs hm hr
  · rw [bind_tooDeep hout]
    have hs := hp c t hc ht
    rw [hout] at hs
    cases hs with
    | tooDeep hs hm => exact .tooDeep hs hm

/-- The first part already reads enough. -/
theorem Steady.bind_left {p : Rule α} {f : α → Rule β} (hp : Steady row k p)
    (hf : ∀ a, Steady row 0 (f a)) : Steady row k (p >>= f) := hp.bind hf

/-- The second part reads enough. -/
theorem Steady.bind_right {p : Rule α} {f : α → Rule β} (hp : Steady row k p)
    (hf : ∀ a, Steady row m (f a)) : Steady row m (p >>= f) :=
  (hp.bind hf).mono (Nat.le_add_left _ _)

theorem Steady.orElse {p q : Rule α} (hp : Steady row k p) (hq : Steady row k q) :
    Steady row k (p <|> q) := by
  intro c t hc ht
  have hs := hp c t hc ht
  rcases hout : p c t with ⟨⟨a, d⟩ | _ | _, u⟩
  · rw [orElse_accept hout]
    rwa [hout] at hs
  · rw [orElse_reject hout]
    obtain ⟨hu, hm, hr⟩ := hp.rejected hc ht hout
    have hstep := (hq c u hc hu).after (k := 0) (t := t) (Nat.le_refl _) hm
    rwa [Nat.zero_add] at hstep
  · rw [orElse_tooDeep hout]
    rwa [hout] at hs

theorem Steady.optional {p : Rule α} (hp : Steady row k p) : Steady row 0 p.optional := by
  intro c t hc ht
  have hs := hp c t hc ht
  rcases hout : p c t with ⟨⟨a, d⟩ | _ | _, u⟩
  · rw [optional_accept hout]
    obtain ⟨hu, hm, ha, hd⟩ := hp.accepted hc ht hout
    exact .accept hu hm (by omega) hd
  · rw [optional_reject hout]
    obtain ⟨hu, hm, hr⟩ := hp.rejected hc ht hout
    exact .accept hu hm (Nat.le_refl _) hc
  · rw [optional_tooDeep hout]
    rw [hout] at hs
    cases hs with
    | tooDeep hu hm => exact .tooDeep hu hm

theorem Steady.manyUpTo {p : Rule α} (hp : Steady row k p) (n : Nat) :
    Steady row 0 (Rule.manyUpTo p n) := by
  induction n with
  | zero => exact Steady.pure []
  | succ n ih =>
    rw [manyUpTo_succ]
    refine hp.optional.bind_left fun first => ?_
    cases first with
    | none => exact Steady.pure []
    | some a => exact ih.bind_left fun _ => Steady.pure _

theorem Steady.many {p : Rule α} (hp : Steady row k p) : Steady row 0 (Rule.many p) :=
  fun c t hc ht => hp.manyUpTo _ c t hc ht

theorem Steady.placed {p : Rule α} (hp : Steady row k p) : Steady row 0 (Rule.placed p) :=
  Steady.pos?.bind_left fun _ => hp.many.bind_left fun _ => Steady.pure _

theorem Steady.remembered {p : Rule Expr} (hp : Steady row 1 p) :
    Steady row 1 (Grammar.remembered p) := by
  intro c t hc ht
  unfold Grammar.remembered
  rcases hmem : t.basics[c.index]? with _ | _ | ⟨e, d⟩
  · -- nothing remembered: the rule runs, and the trail gets one more entry
    have hs := hp c t hc ht
    rcases hout : p c t with ⟨⟨e, d⟩ | _ | _, u⟩
    · obtain ⟨hu, hm, ha, hd⟩ := hp.accepted hc ht hout
      refine .accept (hu.remember ?_ (by simp)) hm ha hd
      intro e' d' heq
      obtain ⟨rfl, rfl⟩ := by simpa using heq
      exact ⟨ha, hd⟩
    · obtain ⟨hu, hm, hr⟩ := hp.rejected hc ht hout
      exact .reject (hu.remember (by simp) fun _ => hr) hm hr
    · rwa [hout] at hs
  · exact .reject ht (Nat.le_refl _) (ht.missed hmem)
  · obtain ⟨hlt, hd⟩ := ht.found hmem
    exact .accept ht (Nat.le_refl _) hlt hd

end

/-! ### The rules of the grammar -/

section

variable {α : Type} {row : List Token} {gap : Rule Unit} {r : Rules}

theorem steady_afterComma (hg : Steady row 0 gap) {item : Rule α} (h : Steady row 1 item) :
    Steady row 1 (afterComma gap item) :=
  hg.bind_right fun _ => (Steady.token .comma).bind_right fun _ => hg.bind_right fun _ => h

theorem steady_commaList (hg : Steady row 0 gap) {item : Rule α} (h : Steady row 1 item)
    (trailing : Bool) : Steady row 1 (commaList gap item trailing) := by
  refine hg.bind_right fun _ => h.optional.bind_right fun first =>
    (steady_afterComma hg h).many.bind_right fun more => ?_
  have hclose : Steady row 1 (do
      gap
      let _ ← token .closeParen
      return first.toList ++ more) :=
    hg.bind_right fun _ => (Steady.token .closeParen).bind_left fun _ => Steady.pure _
  cases trailing with
  | false => exact hclose
  | true => exact (hg.bind_right fun _ => Steady.token .comma).optional.bind_right fun _ => hclose

theorem steady_parameter : Steady row 1 parameter := Steady.read _

theorem steady_basic (hg : Steady row 0 gap) (he : ∀ calls, Steady row 1 (r.expression calls)) :
    Steady row 1 (basic gap r) := by
  have hgroup : Steady row 1 (group gap r) :=
    (Steady.token .openParen).bind_left fun _ => hg.bind_right fun _ =>
      ((he 6).mono (Nat.zero_le _)).bind_left fun _ => hg.bind_left fun _ =>
        ((Steady.token .closeParen).mono (Nat.zero_le _)).bind_left fun _ => Steady.pure _
  exact (Steady.read atom?).orElse hgroup

theorem steady_reading_basic (reading : Reading) (hg : Steady row 0 gap)
    (he : ∀ calls, Steady row 1 (r.expression calls)) : Steady row 1 (reading.basic gap r) := by
  cases reading with
  | plain => exact steady_basic hg he
  | remembering => exact (steady_basic hg he).remembered

theorem steady_negation (hg : Steady row 0 gap) (he : ∀ calls, Steady row 1 (r.expression calls)) :
    Steady row 1 (negation gap r) :=
  (Steady.token .negate).bind_left fun _ => hg.bind_right fun _ => (he 2).bind_right fun _ =>
    Steady.pure _

theorem steady_binaryRest (hg : Steady row 0 gap) (he : ∀ calls, Steady row 1 (r.expression calls))
    (left : Expr) : Steady row 0 (binaryRest gap r left) :=
  hg.bind_right fun _ => (Steady.token .operator).bind_right fun _ => hg.bind_right fun _ =>
    (he 2).bind_right fun _ => Steady.pure _

theorem steady_callRest (hg : Steady row 0 gap) (he : ∀ calls, Steady row 1 (r.expression calls))
    (hs : ∀ calls, Steady row 1 (r.statement calls)) (callee : Expr) :
    Steady row 0 (callRest gap r callee) := by
  refine hg.bind_right fun _ => (Steady.token .openParen).bind_right fun _ => ?_
  split
  · exact (steady_commaList hg steady_parameter true).bind_right fun _ =>
      (hs 3).bind_right fun _ => Steady.pure _
  · exact (steady_commaList hg (he 4) false).bind_right fun _ => Steady.pure _

theorem steady_expressionFrom {b : Rule Expr} (hg : Steady row 0 gap)
    (he : ∀ calls, Steady row 1 (r.expression calls))
    (hs : ∀ calls, Steady row 1 (r.statement calls)) (hb : Steady row 1 b) :
    Steady row 1 (expressionFrom gap r b) :=
  (steady_negation hg he).orElse <| hb.bind_left fun left => (steady_binaryRest hg he left).orElse <|
    (steady_callRest hg he hs left).orElse (Steady.pure left)

theorem steady_statements (hg : Steady row 0 gap) {p : Rule Stmt} (hp : Steady row 1 p) :
    Steady row 0 (statements gap p) :=
  hg.bind_left fun _ => hp.placed

theorem steady_block (hg : Steady row 0 gap) (hs : ∀ calls, Steady row 1 (r.statement calls)) :
    Steady row 1 (block gap r) :=
  (Steady.token .openCurly).bind_left fun _ => (steady_statements hg (hs 4)).bind_left fun _ =>
    hg.bind_left fun _ => (Steady.token .closeCurly).bind_right fun _ => Steady.pure _

theorem steady_elseBranch (hg : Steady row 0 gap)
    (hs : ∀ calls, Steady row 1 (r.statement calls)) : Steady row 0 (elseBranch gap r) := by
  refine (hg.bind_right fun _ => Steady.read _).optional.bind_left fun found => ?_
  cases found with
  | none => exact Steady.pure none
  | some _ => exact (hs 2).bind_right fun _ => Steady.pure _

theorem steady_condition (hg : Steady row 0 gap) (he : ∀ calls, Steady row 1 (r.expression calls))
    (hs : ∀ calls, Steady row 1 (r.statement calls)) : Steady row 1 (condition gap r) :=
  (Steady.read _).bind_left fun _ => hg.bind_right fun _ =>
    (Steady.token .openParen).bind_right fun _ => hg.bind_right fun _ => (he 2).bind_right fun _ =>
      hg.bind_right fun _ => (Steady.token .closeParen).bind_right fun _ =>
        (hs 2).bind_right fun _ => (steady_elseBranch hg hs).bind_left fun _ => Steady.pure _

theorem steady_returning (hg : Steady row 0 gap)
    (he : ∀ calls, Steady row 1 (r.expression calls)) : Steady row 1 (returning gap r) :=
  (Steady.read _).bind_left fun _ => hg.bind_right fun _ => (he 2).bind_right fun _ => Steady.pure _

theorem steady_assignment (hg : Steady row 0 gap)
    (he : ∀ calls, Steady row 1 (r.expression calls)) : Steady row 1 (assignment gap r) :=
  (Steady.token .identifier).bind_left fun _ => hg.bind_right fun _ =>
    (Steady.token .assign).bind_right fun _ => hg.bind_right fun _ => (he 2).bind_right fun _ =>
      Steady.pure _

theorem steady_bareStatement (hg : Steady row 0 gap)
    (he : ∀ calls, Steady row 1 (r.expression calls))
    (hs : ∀ calls, Steady row 1 (r.statement calls)) : Steady row 1 (bareStatement gap r) :=
  (steady_block hg hs).orElse <| (steady_condition hg he hs).orElse <|
    (steady_returning hg he).orElse <| (steady_assignment hg he).orElse <|
      (he 1).bind_left fun _ => Steady.pure _

theorem steady_statementFrom (hg : Steady row 0 gap)
    (he : ∀ calls, Steady row 1 (r.expression calls))
    (hs : ∀ calls, Steady row 1 (r.statement calls)) : Steady row 1 (statementFrom gap r) :=
  hg.bind_right fun _ => (steady_bareStatement hg he hs).bind_left fun _ => hg.bind_left fun _ =>
    Steady.pure _

theorem steady_text (hg : Steady row 0 gap) (hs : ∀ calls, Steady row 1 (r.statement calls)) :
    Steady row 0 (text gap r) :=
  (steady_statements hg (hs 2)).bind_left fun _ => hg.bind_left fun _ => Steady.pure _

/-- The rule passes over something that may stand between two symbols: it accepts in any case, leaves the
trail alone and does not go back. -/
structure Passes (gap : Rule Unit) : Prop where
  accepts : ∀ c, ∃ d, ∀ t, gap c t = (.accept () d, t)
  steady : ∀ row, Steady row 0 gap

theorem passes_skip : Passes skip := ⟨fun c => ⟨c.settle, fun _ => rfl⟩, fun _ => Steady.skip⟩

theorem passes_tight : Passes tight := ⟨fun c => ⟨c, fun _ => rfl⟩, fun _ => Steady.pure ()⟩

/-- **Each rule reads at least one token** whenever it accepts; in either way of reading, with any
room. -/
theorem steady_rules (hg : Steady row 0 gap) (reading : Reading) (room : Nat) :
    (rules gap reading room).All (Steady row 1) (Steady row 1) := by
  induction room with
  | zero => exact ⟨fun _ => Steady.tooDeep, fun _ => Steady.tooDeep⟩
  | succ room ih =>
    exact ih.push
      (steady_expressionFrom hg ih.expression ih.statement
        (steady_reading_basic reading hg ih.expression))
      (steady_statementFrom hg ih.expression ih.statement)

end

end Klex.Grammar
