import Klex.Proofs.Grammar.Layout
import Klex.Proofs.Grammar.Depth

/-!
# Layout that is passed over

A run that passes over layout junction by junction, on the whole row, does what a run on the significant
tokens alone does.

* **`Over`** — a place in the whole row and the place among the significant tokens where the same ones
  are still to come; layout may come first.
* **`Trail.Over`** — the furthest index is the place of the other one, and what is remembered at the place
  of a significant token is what is remembered at its index.
* **`Mirrors`** — the second rule does on the significant tokens what the first one does on the whole
  row.  Whether layout may come next is kept track of before a run and after it.
* **`mirrors_skip`** — passing over layout is nothing to the other run, and no layout comes next
  afterwards; **`Mirrors.read`** — a token may only be asked for where none does.
* **`mirrors_rules`** — **so no junction of the grammar forgets to pass over layout**, in either way of
  reading, with any room.
* **`run_skipping`** — the two runs come to the same program, or to refusals at the same token.

An index of the whole row is told from the significant tokens only where no layout comes next, and
there are three things that need it: a note of a token that is not accepted, what is remembered, and the
offset that a row of statements starts at.
-/

namespace Klex.Grammar

open Rule

/-! ### Places and trails -/

/-- The same tokens of the program are still to come. -/
structure Over (row : List Token) (c d : Cursor) : Prop where
  left : c.In row
  right : d.In (significant row)
  rest : significant c.rest = d.rest

/-- The same expression, and places where the same tokens are still to come. -/
def FoundOver (row : List Token) (x y : Expr × Cursor) : Prop := x.1 = y.1 ∧ Over row x.2 y.2

/-- The trail of a run in the whole row and that of a run on its significant tokens.  Before anything was
noted, the furthest index may stand on layout in front of the first of them. -/
structure Trail.Over (row : List Token) (t u : Trail) : Prop where
  furthest : max t.furthest (place row 0) = place row u.furthest
  basics : ∀ n ≤ (significant row).length,
    Option.Rel (Option.Rel (FoundOver row)) t.basics[place row n]? u.basics[n]?

section

variable {row : List Token} {c d : Cursor} {t u : Trail}

theorem Over.start (row : List Token) : Over row (.start row) (.start (significant row)) where
  left := Cursor.start_in row
  right := Cursor.start_in _
  rest := rfl

/-- Where no layout comes next, the place is that of the significant token. -/
theorem Over.index (h : Over row c d) (hs : c.Settled) : c.index = place row d.index := by
  have hsplit : (significant (row.take c.index)).length + d.rest.length = (significant row).length := by
    rw [← h.rest, h.left.rest, ← List.length_append, ← significant_append, List.take_append_drop]
  have hlength := h.right.rest_length
  have hindex : (significant (row.take c.index)).length = d.index := by omega
  rw [← hindex, place_settled h.left hs]

theorem Over.settle (h : Over row c d) : Over row c.settle d where
  left := h.left.settle
  right := h.right
  rest := (significant_dropWhile c.rest).trans h.rest

/-- Where no layout comes next, the same token comes next. -/
theorem Over.head (h : Over row c d) (hs : c.Settled) {x : Token} {xs : List Token}
    (hc : c.rest = x :: xs) : d.rest = x :: significant xs := by
  rw [← h.rest, hc, significant_cons (hs x xs hc)]

theorem Over.next (h : Over row c d) (hs : c.Settled) {x : Token} {xs : List Token}
    (hc : c.rest = x :: xs) : Over row ⟨c.index + 1, xs⟩ ⟨d.index + 1, significant xs⟩ where
  left := h.left.next hc
  right := h.right.next (h.head hs hc)
  rest := rfl

theorem Trail.Over.empty (row : List Token) : Trail.Over row .empty .empty where
  furthest := Nat.zero_max _
  basics := by
    intro n hn
    simp only [Trail.empty, Std.HashMap.getElem?_empty]
    exact .none

theorem Trail.Over.note (h : t.Over row u) (n : Nat) :
    (t.note (place row n)).Over row (u.note n) where
  furthest := by
    rw [Trail.furthest_note, Trail.furthest_note, place_max, ← h.furthest]
    omega
  basics := h.basics

theorem Trail.Over.remember (h : t.Over row u) {n : Nat} (hn : n ≤ (significant row).length)
    {x y : Option (Expr × Cursor)} (hxy : Option.Rel (FoundOver row) x y) :
    (t.remember (place row n) x).Over row (u.remember n y) where
  furthest := h.furthest
  basics := by
    intro k hk
    simp only [Trail.remember, Std.HashMap.getElem?_insert, beq_iff_eq]
    by_cases heq : n = k
    · rw [if_pos (congrArg (place row) heq), if_pos heq]
      exact .some hxy
    · rw [if_neg fun hplace => heq (place_inj hn hk hplace), if_neg heq]
      exact h.basics k hk

end

/-! ### Rules that mirror each other -/

/-- Outcomes of the two runs: both accept where the same tokens are still to come, both reject, or both give
up. -/
inductive Outcome {α : Type} (row : List Token) (settled : Bool) :
    Reply α × Trail → Reply α × Trail → Prop
  | accept {a : α} {c d : Cursor} {t u : Trail} : Over row c d → (settled = true → c.Settled) →
      t.Over row u → Outcome row settled (.accept a c, t) (.accept a d, u)
  | reject {t u : Trail} : t.Over row u → Outcome row settled (.reject, t) (.reject, u)
  | tooDeep {t u : Trail} : t.Over row u → Outcome row settled (.tooDeep, t) (.tooDeep, u)

/-- The second rule does on the significant tokens what the first one does on the whole row.  The first flag
says that the rule is only asked where no layout comes next, the second one that none does where it
ends. -/
structure Mirrors {α : Type} (row : List Token) (before after : Bool) (p q : Rule α) : Prop where
  steady : Steady (significant row) 0 q
  run : ∀ {c d : Cursor} {t u : Trail}, Over row c d → (before = true → c.Settled) → t.Over row u →
    u.Sane (significant row) → Outcome row after (p c t) (q d u)

section

variable {α β : Type} {row : List Token} {before between after : Bool}

/-- Where no layout comes next is one of the places where some may. -/
theorem Mirrors.settled {p q : Rule α} (h : Mirrors row false after p q) :
    Mirrors row true after p q where
  steady := h.steady
  run := fun hcd _ => h.run hcd nofun

theorem Mirrors.forget {p q : Rule α} (h : Mirrors row before true p q) :
    Mirrors row before false p q where
  steady := h.steady
  run := by
    intro c d t u hcd hs htu hu
    have hout := h.run hcd hs htu hu
    generalize p c t = out at hout
    generalize q d u = out' at hout
    cases hout with
    | accept hnext _ htrail => exact .accept hnext nofun htrail
    | reject htrail => exact .reject htrail
    | tooDeep htrail => exact .tooDeep htrail

theorem Mirrors.pure (a : α) : Mirrors row before before (pure a) (pure a) where
  steady := Steady.pure a
  run := fun hcd hs htu _ => .accept hcd hs htu

theorem Mirrors.tooDeep : Mirrors row before after (Rule.tooDeep : Rule α) Rule.tooDeep where
  steady := Steady.tooDeep
  run := fun _ _ htu _ => .tooDeep htu

theorem mirrors_skip (row : List Token) : Mirrors row false true skip tight where
  steady := Steady.pure ()
  run := fun {c _ _ _} hcd _ htu _ => .accept hcd.settle (fun _ => c.settled_settle) htu

theorem Mirrors.pos? : Mirrors row true true Rule.pos? Rule.pos? where
  steady := Steady.pos?
  run := by
    intro c d t u hcd hs htu _
    have hsame : c.pos? = d.pos? := by
      rw [Cursor.pos?, Cursor.pos?]
      rcases hc : c.rest with _ | ⟨x, xs⟩
      · rw [← hcd.rest, hc, significant_nil]
      · rw [hcd.head (hs rfl) hc, List.head?_cons, List.head?_cons]
    show Outcome row true (.accept c.pos? c, t) (.accept d.pos? d, u)
    rw [hsame]
    exact .accept hcd hs htu

theorem Mirrors.read (f : Token → Option α) : Mirrors row true false (read f) (read f) where
  steady := (Steady.read f).mono (Nat.zero_le _)
  run := by
    intro c d t u hcd hs htu _
    have hnote : (t.note c.index).Over row (u.note d.index) := by
      rw [hcd.index (hs rfl)]
      exact htu.note d.index
    rcases hc : c.rest with _ | ⟨x, xs⟩
    · have hd : d.rest = [] := by rw [← hcd.rest, hc, significant_nil]
      rw [read_nil f t hc, read_nil f u hd]
      exact .reject hnote
    · have hd := hcd.head (hs rfl) hc
      cases hx : f x with
      | none =>
        rw [read_none t hc hx, read_none u hd hx]
        exact .reject hnote
      | some a =>
        rw [read_some t hc hx, read_some u hd hx]
        exact .accept (hcd.next (hs rfl) hc) nofun htu

theorem Mirrors.bind {p q : Rule α} {f g : α → Rule β} (h : Mirrors row before between p q)
    (hf : ∀ a, Mirrors row between after (f a) (g a)) :
    Mirrors row before after (p >>= f) (q >>= g) where
  steady := h.steady.bind_left fun a => (hf a).steady
  run := by
    intro c d t u hcd hs htu hu
    have hout := h.run hcd hs htu hu
    rcases hp : p c t with ⟨reply, t'⟩
    rcases hq : q d u with ⟨reply', u'⟩
    rw [hp, hq] at hout
    cases hout with
    | accept hnext hs' htrail =>
      rw [bind_accept hp, bind_accept hq]
      exact (hf _).run hnext hs' htrail (h.steady.accepted hcd.right hu hq).1
    | reject htrail =>
      rw [bind_reject hp, bind_reject hq]
      exact .reject htrail
    | tooDeep htrail =>
      rw [bind_tooDeep hp, bind_tooDeep hq]
      exact .tooDeep htrail

theorem Mirrors.orElse {p q p' q' : Rule α} (h : Mirrors row before after p q)
    (h' : Mirrors row before after p' q') : Mirrors row before after (p <|> p') (q <|> q') where
  steady := h.steady.orElse h'.steady
  run := by
    intro c d t u hcd hs htu hu
    have hout := h.run hcd hs htu hu
    rcases hp : p c t with ⟨reply, t'⟩
    rcases hq : q d u with ⟨reply', u'⟩
    rw [hp, hq] at hout
    cases hout with
    | accept hnext hs' htrail =>
      rw [orElse_accept hp, orElse_accept hq]
      exact .accept hnext hs' htrail
    | reject htrail =>
      rw [orElse_reject hp, orElse_reject hq]
      exact h'.run hcd hs htrail (h.steady.rejected hcd.right hu hq).1
    | tooDeep htrail =>
      rw [orElse_tooDeep hp, orElse_tooDeep hq]
      exact .tooDeep htrail

/-- Where the rule rejects, layout may come next as before. -/
theorem Mirrors.optional {p q : Rule α} (h : Mirrors row before false p q) :
    Mirrors row before false p.optional q.optional where
  steady := h.steady.optional
  run := by
    intro c d t u hcd hs htu hu
    have hout := h.run hcd hs htu hu
    rcases hp : p c t with ⟨reply, t'⟩
    rcases hq : q d u with ⟨reply', u'⟩
    rw [hp, hq] at hout
    cases hout with
    | accept hnext _ htrail =>
      rw [optional_accept hp, optional_accept hq]
      exact .accept hnext nofun htrail
    | reject htrail =>
      rw [optional_reject hp, optional_reject hq]
      exact .accept hcd nofun htrail
    | tooDeep htrail =>
      rw [optional_tooDeep hp, optional_tooDeep hq]
      exact .tooDeep htrail

/-- The whole row gives a greater bound on the number of items, but as both bounds exceed what is left of
the significant tokens, both loops end where the rule rejects. -/
theorem Mirrors.manyUpTo {p q : Rule α} (hq : Steady (significant row) 1 q)
    (h : Mirrors row false false p q) {k m : Nat} {c d : Cursor} {t u : Trail}
    (hk : d.rest.length < k) (hm : d.rest.length < m) (hcd : Over row c d) (htu : t.Over row u)
    (hu : u.Sane (significant row)) :
    Outcome row false (Rule.manyUpTo p k c t) (Rule.manyUpTo q m d u) := by
  induction k generalizing m c d t u with
  | zero => exact absurd hk (Nat.not_lt_zero _)
  | succ k ih =>
    obtain ⟨m, rfl⟩ : ∃ m', m = m' + 1 := ⟨m - 1, by omega⟩
    have hout := h.run hcd nofun htu hu
    rcases hp₁ : p c t with ⟨reply, t₁⟩
    rcases hq₁ : q d u with ⟨reply', u₁⟩
    rw [hp₁, hq₁] at hout
    cases hout with
    | accept hnext _ htrail =>
      obtain ⟨hu₁, -, hread, hd₁⟩ := hq.accepted hcd.right hu hq₁
      have hless := hcd.right.rest_length
      have hless₁ := hd₁.rest_length
      have hmore := ih (m := m) (by omega) (by omega) hnext htrail hu₁
      rw [manyUpTo_accept hp₁, manyUpTo_accept hq₁]
      rcases hp₂ : Rule.manyUpTo p k _ t₁ with ⟨reply, t₂⟩
      rcases hq₂ : Rule.manyUpTo q m _ u₁ with ⟨reply', u₂⟩
      rw [hp₂, hq₂] at hmore
      cases hmore with
      | accept hend _ htrail' =>
        rw [bind_accept hp₂, bind_accept hq₂]
        exact .accept hend nofun htrail'
      | reject htrail' =>
        rw [bind_reject hp₂, bind_reject hq₂]
        exact .reject htrail'
      | tooDeep htrail' =>
        rw [bind_tooDeep hp₂, bind_tooDeep hq₂]
        exact .tooDeep htrail'
    | reject htrail =>
      rw [manyUpTo_reject hp₁, manyUpTo_reject hq₁]
      exact .accept hcd nofun htrail
    | tooDeep htrail =>
      rw [manyUpTo_tooDeep hp₁, manyUpTo_tooDeep hq₁]
      exact .tooDeep htrail

theorem Mirrors.many {p q : Rule α} (hq : Steady (significant row) 1 q)
    (h : Mirrors row false false p q) : Mirrors row false false (Rule.many p) (Rule.many q) where
  steady := hq.many
  run := by
    intro c d t u hcd _ htu hu
    have hle : d.rest.length ≤ c.rest.length := by
      rw [← hcd.rest]
      exact List.length_filter_le _ _
    exact h.manyUpTo hq (by omega) (by omega) hcd htu hu

theorem Mirrors.remembered {p q : Rule Expr} (hq : Steady (significant row) 1 q)
    (h : Mirrors row true false p q) :
    Mirrors row true false (Grammar.remembered p) (Grammar.remembered q) where
  steady := hq.remembered.mono (Nat.zero_le _)
  run := by
    intro c d t u hcd hs htu hu
    have hbound : d.index ≤ (significant row).length := hcd.right.bound
    have hmem := htu.basics d.index hbound
    unfold Grammar.remembered
    rw [hcd.index (hs rfl)]
    generalize t.basics[place row d.index]? = x at hmem ⊢
    generalize u.basics[d.index]? = y at hmem ⊢
    cases hmem with
    | none =>
      have hout := h.run hcd hs htu hu
      generalize p c t = out at hout ⊢
      generalize q d u = out' at hout ⊢
      cases hout with
      | accept hnext _ htrail =>
        exact .accept hnext nofun (htrail.remember hbound (.some ⟨rfl, hnext⟩))
      | reject htrail => exact .reject (htrail.remember hbound .none)
      | tooDeep htrail => exact .tooDeep htrail
    | some hxy =>
      cases hxy with
      | none => exact .reject htu
      | @some x y hsame =>
        obtain ⟨e, next⟩ := x
        obtain ⟨e', next'⟩ := y
        obtain ⟨rfl, hnext⟩ := hsame
        exact .accept hnext nofun htu

/-- Layout is passed over before the next symbol. -/
theorem Mirrors.skip_bind {f g : Unit → Rule α} (h : ∀ a, Mirrors row true after (f a) (g a)) :
    Mirrors row false after (skip >>= f) (tight >>= g) :=
  (mirrors_skip row).bind h

/-- A token is read, and layout may come next. -/
theorem Mirrors.read_bind {f : Token → Option α} {g g' : α → Rule β}
    (h : ∀ a, Mirrors row false after (g a) (g' a)) :
    Mirrors row true after (Rule.read f >>= g) (Rule.read f >>= g') :=
  (Mirrors.read f).bind h

end

/-! ### The rules of the grammar -/

section

variable {α : Type} {row : List Token} {r s : Rules}

theorem mirrors_commaList {p q : Rule α} (hq : Steady (significant row) 1 q)
    (h : Mirrors row true false p q) (trailing : Bool) :
    Mirrors row false false (commaList skip p trailing) (commaList tight q trailing) := by
  have hafter : Mirrors row false false (afterComma skip p) (afterComma tight q) :=
    .skip_bind fun _ => .read_bind fun _ => .skip_bind fun _ => h
  have hsteady : Steady (significant row) 1 (afterComma tight q) :=
    steady_afterComma (Steady.pure ()) hq
  refine .skip_bind fun _ => h.optional.bind fun first => (hafter.many hsteady).bind fun more => ?_
  have hclose : Mirrors row false false
      (do
        skip
        let _ ← token .closeParen
        return first.toList ++ more)
      (do
        tight
        let _ ← token .closeParen
        return first.toList ++ more) :=
    .skip_bind fun _ => .read_bind fun _ => .pure _
  cases trailing with
  | false => exact hclose
  | true =>
    have hcomma : Mirrors row false false (do skip; token .comma) (do tight; token .comma) :=
      .skip_bind fun _ => .read _
    exact hcomma.optional.bind fun _ => hclose

theorem mirrors_basic (he : ∀ calls, Mirrors row true false (r.expression calls) (s.expression calls)) :
    Mirrors row true false (basic skip r) (basic tight s) := by
  have hgroup : Mirrors row true false (group skip r) (group tight s) :=
    .read_bind fun _ => .skip_bind fun _ => (he 6).bind fun _ => .skip_bind fun _ =>
      .read_bind fun _ => .pure _
  exact (Mirrors.read atom?).orElse hgroup

theorem mirrors_binaryRest
    (he : ∀ calls, Mirrors row true false (r.expression calls) (s.expression calls)) (left : Expr) :
    Mirrors row false false (binaryRest skip r left) (binaryRest tight s left) :=
  .skip_bind fun _ => .read_bind fun _ => .skip_bind fun _ => (he 2).bind fun _ => .pure _

theorem mirrors_callRest (hsteady : ∀ calls, Steady (significant row) 1 (s.expression calls))
    (h : r.Rel (Mirrors row true false) (Mirrors row false true) s) (callee : Expr) :
    Mirrors row false false (callRest skip r callee) (callRest tight s callee) := by
  refine .skip_bind fun _ => .read_bind fun _ => ?_
  split
  · exact (mirrors_commaList steady_parameter (.read _) true).bind fun _ =>
      (h.statement 3).forget.bind fun _ => .pure _
  · exact (mirrors_commaList (hsteady 4) (h.expression 4) false).bind fun _ => .pure _

theorem mirrors_expressionFrom {p q : Rule Expr}
    (hsteady : ∀ calls, Steady (significant row) 1 (s.expression calls))
    (h : r.Rel (Mirrors row true false) (Mirrors row false true) s)
    (hb : Mirrors row true false p q) :
    Mirrors row true false (expressionFrom skip r p) (expressionFrom tight s q) := by
  have hnegation : Mirrors row true false (negation skip r) (negation tight s) :=
    .read_bind fun _ => .skip_bind fun _ => (h.expression 2).bind fun _ => .pure _
  exact hnegation.orElse <| hb.bind fun left => (mirrors_binaryRest h.expression left).orElse <|
    (mirrors_callRest hsteady h left).orElse (.pure left)

theorem mirrors_statements {p q : Rule Stmt} (hq : Steady (significant row) 1 q)
    (h : Mirrors row false true p q) :
    Mirrors row false false (statements skip p) (statements tight q) :=
  .skip_bind fun _ => Mirrors.pos?.bind fun _ => (h.forget.many hq).settled.bind fun _ => .pure _

theorem mirrors_statementFrom (hsteady : ∀ calls, Steady (significant row) 1 (s.statement calls))
    (h : r.Rel (Mirrors row true false) (Mirrors row false true) s) :
    Mirrors row false true (statementFrom skip r) (statementFrom tight s) := by
  have hblock : Mirrors row true false (block skip r) (block tight s) :=
    .read_bind fun _ => (mirrors_statements (hsteady 4) (h.statement 4)).bind fun _ =>
      .skip_bind fun _ => .read_bind fun _ => .pure _
  have hword : Mirrors row false false (do skip; keyword "else") (do tight; keyword "else") :=
    .skip_bind fun _ => .read _
  have helse : Mirrors row false false (elseBranch skip r) (elseBranch tight s) := by
    refine hword.optional.bind fun found => ?_
    cases found with
    | none => exact .pure none
    | some _ => exact (h.statement 2).forget.bind fun _ => .pure _
  have hcond : Mirrors row true false (condition skip r) (condition tight s) :=
    .read_bind fun _ => .skip_bind fun _ => .read_bind fun _ => .skip_bind fun _ =>
      (h.expression 2).bind fun _ => .skip_bind fun _ => .read_bind fun _ =>
        (h.statement 2).forget.bind fun _ => helse.bind fun _ => .pure _
  have hret : Mirrors row true false (returning skip r) (returning tight s) :=
    .read_bind fun _ => .skip_bind fun _ => (h.expression 2).bind fun _ => .pure _
  have hassign : Mirrors row true false (assignment skip r) (assignment tight s) :=
    .read_bind fun _ => .skip_bind fun _ => .read_bind fun _ => .skip_bind fun _ =>
      (h.expression 2).bind fun _ => .pure _
  have hbare : Mirrors row true false (bareStatement skip r) (bareStatement tight s) :=
    hblock.orElse <| hcond.orElse <| hret.orElse <| hassign.orElse <|
      (h.expression 1).bind fun _ => .pure _
  exact .skip_bind fun _ => hbare.bind fun _ => .skip_bind fun _ => .pure _

theorem mirrors_text (hsteady : ∀ calls, Steady (significant row) 1 (s.statement calls))
    (h : r.Rel (Mirrors row true false) (Mirrors row false true) s) :
    Mirrors row false true (text skip r) (text tight s) :=
  (mirrors_statements (hsteady 2) (h.statement 2)).bind fun _ => .skip_bind fun _ => .pure _

end

/-- **Each rule passes over the layout of its junctions**: an expression is asked for where none comes next,
and a statement takes the layout in front of it and behind it. -/
theorem mirrors_rules (row : List Token) (reading : Reading) (room : Nat) :
    (rules skip reading room).Rel (Mirrors row true false) (Mirrors row false true)
      (rules tight reading room) := by
  induction room with
  | zero => exact ⟨fun _ => .tooDeep, fun _ => .tooDeep⟩
  | succ room ih =>
    obtain ⟨hse, hss⟩ := steady_rules (passes_tight.steady (significant row)) reading room
    have hb : Mirrors row true false (reading.basic skip (rules skip reading room))
        (reading.basic tight (rules tight reading room)) := by
      cases reading with
      | plain => exact mirrors_basic ih.expression
      | remembering =>
        exact (mirrors_basic ih.expression).remembered (steady_basic (Steady.pure ()) hse)
    exact ih.push (mirrors_expressionFrom hse ih hb) (mirrors_statementFrom hss ih)

/-! ### Whole texts -/

/-- What a run on the whole row and one on its significant tokens come to: the same program, or refusals at the
same token. -/
inductive Mirrored (row : List Token) :
    Except Refusal Program → Except Refusal Program → Prop
  | ok (p : Program) : Mirrored row (.ok p) (.ok p)
  | stuckAt (index : Nat) :
      Mirrored row (.error (.stuckAt (place row index))) (.error (.stuckAt index))
  | tooDeep {n index : Nat} : max n (place row 0) = place row index →
      Mirrored row (.error (.tooDeep n)) (.error (.tooDeep index))

/-- A whole text is never rejected; at worst it ends early. -/
theorem text_ne_reject {gap : Rule Unit} (hg : Passes gap) (r : Rules) (c : Cursor) (t u : Trail) :
    text gap r c t ≠ (.reject, u) := by
  intro h
  obtain ⟨d, hd⟩ := hg.accepts c
  have hpos : pos? d t = (.accept d.pos? d, t) := rfl
  rw [text, statements, bind_assoc, bind_accept (hd t), bind_assoc, bind_accept hpos] at h
  rcases hmany : many (r.statement 2) d t with ⟨⟨body, e⟩ | _ | _, v⟩
  · obtain ⟨e', he'⟩ := hg.accepts e
    rw [bind_assoc, bind_accept hmany, pure_bind, bind_accept (he' v)] at h
    simp [pure_run] at h
  · exact many_ne_reject _ _ _ _ hmany
  · rw [bind_assoc, bind_tooDeep hmany] at h
    simp at h

/-- **Passing over layout by hand comes to what the significant tokens come to.** -/
theorem run_skipping (reading : Reading) (room : Nat) (row : List Token) :
    Mirrored row (run skip reading room row) (run tight reading room (significant row)) := by
  have hsteady := (steady_rules (passes_tight.steady (significant row)) reading room).statement
  have hout := (mirrors_text hsteady (mirrors_rules row reading room)).run (Over.start row) nofun
    (Trail.Over.empty row) (Trail.sane_empty _)
  rw [run, run, program, program]
  have hreject := text_ne_reject passes_skip (rules skip reading room) (.start row) .empty
  generalize text skip (rules skip reading room) (.start row) .empty = out at hout hreject
  generalize text tight (rules tight reading room) (.start (significant row)) .empty = out' at hout
  cases hout with
  | @accept p c d t u hcd hs htu =>
    by_cases hrest : c.rest = []
    · have hrest' : d.rest = [] := by rw [← hcd.rest, hrest, significant_nil]
      simp only [verdict, hrest, hrest', List.isEmpty_nil, if_true]
      exact .ok p
    · have hrest' : d.rest ≠ [] := by
        obtain ⟨x, xs, hx⟩ := List.exists_cons_of_ne_nil hrest
        rw [hcd.head (hs rfl) hx]
        exact List.cons_ne_nil _ _
      have hzero : place row 0 ≤ place row d.index := place_le_place row (Nat.zero_le _)
      have hfar : max t.furthest c.index = place row (max u.furthest d.index) := by
        rw [place_max, ← htu.furthest, hcd.index (hs rfl)]
        omega
      rw [verdict_accept hrest, verdict_accept hrest', hfar]
      exact .stuckAt _
  | @reject t u htu => exact absurd rfl (hreject t)
  | @tooDeep t u htu => exact .tooDeep htu.furthest

end Klex.Grammar
