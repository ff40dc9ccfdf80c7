import Klex.Proofs.Grammar.Alternatives

/-!
# Every parse ends, within the row

Every rule that accepts has read something, and that carries everything else: the loops come to an end,
the rules that go through each other need no more room than there are tokens, and no index leaves the row.

* **`Advances`** — a rule leads forward and not beyond the row; the furthest index does not fall and stays in
  the row as well.
* **`Loops`** — the loop over a rule ends where the rule rejects, with no more items than tokens read.
* **`Steady.advances`**, **`Steady.loops`** — both follow from reading one token at least.
* **`bounded_rules`**, **`bounded_rulesInTurn`** — **all rules of the grammar do so**, in either way of reading,
  with any room, whether alternatives share their start or are tried in turn.
* **`endless_above`** — the rules without a limit on nesting go through themselves.
* **`parse_bounded`** — **so a row of tokens is a program or is refused at one of its tokens or at its end.**
-/

namespace Klex.Grammar

open Rule

/-! ### Forward within the row -/

section

variable {α : Type} {tokens : List Token} {p : Rule α}

/-- A place stands further on in the row than another one. -/
structure Cursor.Beyond (tokens : List Token) (c d : Cursor) : Prop where
  index : c.index < d.index
  bound : d.index ≤ tokens.length
  inside : d.In tokens

/-- One run of a rule over a row of tokens.  If the rule accepts, it ends further on in the row.  However the run
comes out, the furthest index has not fallen and has not left the row. -/
structure Forward (tokens : List Token) (c : Cursor) (t : Trail) (out : Reply α × Trail) : Prop where
  accepted : ∀ a d, out.1 = .accept a d → c.Beyond tokens d
  furthest : t.furthest ≤ out.2.furthest
  bound : out.2.furthest ≤ tokens.length
  sane : out.2.Sane tokens

/-- Every run of the rule leads forward. -/
def Advances (tokens : List Token) (p : Rule α) : Prop :=
  ∀ c t, c.In tokens → t.Sane tokens → Forward tokens c t (p c t)

theorem Steady.advances (hp : Steady tokens 1 p) : Advances tokens p := by
  intro c t hc ht
  have hstep := hp c t hc ht
  generalize p c t = out at hstep
  obtain @⟨a, d, u, hu, hfurthest, hindex, hd⟩ | @⟨u, hu, hfurthest, -⟩ | @⟨u, hu, hfurthest⟩ := hstep
  · refine ⟨?_, hfurthest, hu.bound, hu⟩
    rintro _ _ ⟨⟩
    exact ⟨hindex, hd.bound, hd⟩
  · exact ⟨fun _ _ h => (by cases h), hfurthest, hu.bound, hu⟩
  · exact ⟨fun _ _ h => (by cases h), hfurthest, hu.bound, hu⟩

/-! ### Loops -/

/-- The loop over a rule ends by itself: it makes no more attempts than there are tokens left and one, so any
larger bound is as good; and where it ends the rule rejects, each item having read a token at least. -/
structure Loops (row : List Token) (p : Rule α) : Prop where
  attempts : ∀ c t, c.In row → t.Sane row → ∀ n, c.rest.length < n → manyUpTo p n c t = many p c t
  stops : ∀ c t items d u, c.In row → t.Sane row → many p c t = (.accept items d, u) →
    c.index + items.length ≤ d.index ∧ d.index ≤ row.length ∧ ∃ t', p d t' = (.reject, u)

end

section

variable {α : Type} {row : List Token} {p : Rule α}

/-- What is left gets shorter as the index grows. -/
theorem Cursor.In.rest_lt {c d : Cursor} (hc : c.In row) (hd : d.In row) (h : c.index < d.index) :
    d.rest.length < c.rest.length := by
  have hlength := hc.rest_length
  have hlength' := hd.rest_length
  omega

/-- Bounds beyond what is left give the same loop. -/
theorem Steady.manyUpTo_congr (hp : Steady row 1 p) {n m : Nat} {c : Cursor} {t : Trail} (hc : c.In row)
    (ht : t.Sane row) (hn : c.rest.length < n) (hm : c.rest.length < m) :
    Rule.manyUpTo p n c t = Rule.manyUpTo p m c t := by
  induction n generalizing m c t with
  | zero => exact absurd hn (Nat.not_lt_zero _)
  | succ n ih =>
    obtain ⟨m, rfl⟩ : ∃ m', m = m' + 1 := ⟨m - 1, by omega⟩
    rcases hout : p c t with ⟨⟨a, d⟩ | _ | _, u⟩
    · -- the item has read a token, so fewer are left for the rest of the loop
      obtain ⟨hu, -, hindex, hd⟩ := hp.accepted hc ht hout
      have hless := hc.rest_lt hd hindex
      rw [manyUpTo_accept hout, manyUpTo_accept hout]
      show Rule.bind _ _ d u = Rule.bind _ _ d u
      rw [Rule.bind, Rule.bind, ih (m := m) hd hu (by omega) (by omega)]
    · rw [manyUpTo_reject hout, manyUpTo_reject hout]
    · rw [manyUpTo_tooDeep hout, manyUpTo_tooDeep hout]

/-- A loop with bound enough ends where the rule rejects. -/
theorem Steady.manyUpTo_stops (hp : Steady row 1 p) {n : Nat} {c d : Cursor} {t u : Trail}
    {items : List α} (hc : c.In row) (ht : t.Sane row) (hn : c.rest.length < n)
    (h : Rule.manyUpTo p n c t = (.accept items d, u)) :
    c.index + items.length ≤ d.index ∧ d.index ≤ row.length ∧ ∃ t', p d t' = (.reject, u) := by
  induction n generalizing c t items with
  | zero => exact absurd hn (Nat.not_lt_zero _)
  | succ n ih =>
    rcases hout : p c t with ⟨⟨a, e⟩ | _ | _, v⟩
    · obtain ⟨hv, -, hindex, he⟩ := hp.accepted hc ht hout
      have hless := hc.rest_lt he hindex
      rw [manyUpTo_accept hout] at h
      rcases hmore : Rule.manyUpTo p n e v with ⟨⟨others, e'⟩ | _ | _, v'⟩
      · rw [bind_accept hmore, pure_run] at h
        cases h
        obtain ⟨hcount, hbound, hrejects⟩ := ih he hv (by omega) hmore
        refine ⟨?_, hbound, hrejects⟩
        rw [List.length_cons]
        omega
      · rw [bind_reject hmore] at h
        cases h
      · rw [bind_tooDeep hmore] at h
        cases h
    · rw [manyUpTo_reject hout] at h
      cases h
      exact ⟨Nat.le_refl _, hc.bound, t, hout⟩
    · rw [manyUpTo_tooDeep hout] at h
      cases h

theorem Steady.loops (hp : Steady row 1 p) : Loops row p where
  attempts _ _ hc ht _ hn := hp.manyUpTo_congr hc ht hn (Nat.lt_succ_self _)
  stops _ _ _ _ _ hc ht h := hp.manyUpTo_stops hc ht (Nat.lt_succ_self _) h

end

/-! ### The rules of the grammar -/

/-- Rules lead forward, and so does what is made of them; the loops over statements, over arguments and over
parameters end. -/
structure Bounded (tokens : List Token) (reading : Reading) (r : Rules) : Prop where
  statement : ∀ calls, Advances tokens (r.statement calls)
  expression : ∀ calls, Advances tokens (r.expression calls)
  basic : Advances tokens (reading.basic skip r)
  parameter : Advances tokens parameter
  statements : ∀ calls, Loops tokens (r.statement calls)
  arguments : ∀ calls, Loops tokens (afterComma skip (r.expression calls))
  parameters : Loops tokens (afterComma skip Grammar.parameter)

theorem Bounded.of_steady {tokens : List Token} {reading : Reading} {r : Rules}
    (h : r.All (Steady tokens 1) (Steady tokens 1)) : Bounded tokens reading r where
  statement calls := (h.statement calls).advances
  expression calls := (h.expression calls).advances
  basic := (steady_reading_basic reading Steady.skip h.expression).advances
  parameter := steady_parameter.advances
  statements calls := (h.statement calls).loops
  arguments calls := (steady_afterComma Steady.skip (h.expression calls)).loops
  parameters := (steady_afterComma Steady.skip steady_parameter).loops

theorem bounded_rules (tokens : List Token) (reading : Reading) (room : Nat) :
    Bounded tokens reading (rules skip reading room) :=
  .of_steady (steady_rules Steady.skip reading room)

theorem bounded_rulesInTurn (tokens : List Token) (reading : Reading) (room : Nat) :
    Bounded tokens reading (rulesInTurn skip reading room) :=
  .of_steady (steady_rulesInTurn Steady.skip reading room)

/-- The rules without a limit go through themselves. -/
theorem endless_above {gap : Rule Unit} (hg : Passes gap) :
    (endless gap).above gap .plain = endless gap := by
  refine (Rules.mk.injEq ..).mpr ⟨funext fun calls => ?_, funext fun calls => ?_⟩
  · cases calls with
    | zero => exact (endless_expression hg 0).symm
    | succ calls => rfl
  · cases calls with
    | zero => exact (endless_statement hg 0).symm
    | succ calls => rfl

/-! ### Whole texts -/

/-- The outcome is a program or names what stands at a place of the row or at its end. -/
def Settles (tokens : List Token) (outcome : Except Failure Program) : Prop :=
  (∃ p, outcome = .ok p) ∨ ∃ k ≤ tokens.length, outcome = .error (failureAt tokens k)

/-- Unless the run gives up, what the row comes to names a place of the row. -/
theorem settles_of_not_gaveUp {reading : Reading} {room : Nat} {tokens : List Token}
    (h : ¬ GaveUp (run skip reading room tokens)) :
    Settles tokens (Program.ofTokensWithin reading room tokens) := by
  rcases hrun : run skip reading room tokens with (index | index) | p
  · exact absurd ⟨index, hrun⟩ h
  · have hrefused : RefusedAt reading room tokens index := hrun
    exact .inr ⟨index, hrefused.failure⟩
  · exact .inl ⟨p, ofTokensWithin_eq_ok.2 hrun⟩

/-- The end of a run over the tokens.  The furthest index is in the row; and unless the run gave up, which it does
not where the room is ample, the tokens are a program or are refused at a place in the row.  A run that gave up
names a place in the row as well. -/
structure Ended (tokens : List Token) (room : Nat) (out : Reply Program × Trail)
    (outcome : Except Failure Program) : Prop where
  furthest : out.2.furthest ≤ tokens.length
  ample : ampleFor tokens ≤ room → Settles tokens outcome
  settles : TooDeep tokens outcome ∨ Settles tokens outcome

theorem ended_rules (tokens : List Token) (reading : Reading) (room : Nat) :
    Ended tokens room (text skip (rules skip reading room) (.start tokens) .empty)
      (Program.ofTokensWithin reading room tokens) where
  furthest := furthest_text passes_skip (steady_rules Steady.skip reading room).statement
  ample hroom := settles_of_not_gaveUp (not_gaveUp_of_ampleFor reading hroom)
  settles := (Classical.em _).imp tooDeep_of_gaveUp settles_of_not_gaveUp

theorem ended_rulesInTurn (tokens : List Token) (reading : Reading) (room : Nat) :
    Ended tokens room (text skip (rulesInTurn skip reading room) (.start tokens) .empty)
      (Program.ofTokensInTurn reading room tokens) where
  furthest := furthest_text passes_skip (steady_rulesInTurn Steady.skip reading room).statement
  ample hroom := by
    have hdeep := not_gaveUp_of_ampleFor .plain hroom
    rw [ofTokensInTurn_eq reading hdeep]
    exact settles_of_not_gaveUp hdeep
  settles := by
    rcases ofTokensInTurn_eq_or reading room tokens with hdeep | heq
    · exact .inl hdeep
    · right
      rw [heq]
      exact settles_of_not_gaveUp (not_gaveUp_of_ampleFor .plain (Nat.le_refl _))

/-- **Every parse ends, and stays in its row.**  From any place in the row and any trail that speaks of it, as a
run has at its start, every rule that accepts ends further on and not beyond the row, the furthest index does
not fall and stays in the row, and the loops end.  A rule that rejects is followed by whatever comes next at
the place where it began.  There are rules that go through each other without a limit; they never give up, and
the rules with so much room do as they do.  So with ample room a row of tokens is a program or is refused at
one of its tokens or at its end, in either way of reading, and with less room it may be refused as nested too
deeply instead, at one of its tokens or at its end again. -/
theorem parse_bounded (tokens : List Token) :
    ((Cursor.start tokens).In tokens ∧ Trail.empty.Sane tokens) ∧
    (∀ reading room, Bounded tokens reading (rules skip reading room) ∧
      Bounded tokens reading (rulesInTurn skip reading room)) ∧
    (∀ (α : Type) (p q : Rule α) c t u, p c t = (.reject, u) →
      p.optional c t = (.accept none c, u) ∧ (p <|> q) c t = q c u) ∧
    ((endless skip).above skip .plain = endless skip ∧ ∀ calls c t,
      ((endless skip).expression calls c t).1 ≠ .tooDeep ∧
        ((endless skip).statement calls c t).1 ≠ .tooDeep ∧
        ∀ room, ample c ≤ room →
          (rules skip .plain room).expression 0 c t = (endless skip).expression calls c t ∧
            (rules skip .plain room).statement 0 c t = (endless skip).statement calls c t) ∧
    ∀ reading room,
      Ended tokens room (text skip (rules skip reading room) (.start tokens) .empty)
          (Program.ofTokensWithin reading room tokens) ∧
        Ended tokens room (text skip (rulesInTurn skip reading room) (.start tokens) .empty)
          (Program.ofTokensInTurn reading room tokens) := by
  refine ⟨⟨Cursor.start_in _, Trail.sane_empty _⟩,
    fun reading room => ⟨bounded_rules tokens reading room, bounded_rulesInTurn tokens reading room⟩,
    fun α p q c t u h => ⟨optional_reject h, orElse_reject h⟩,
    ⟨endless_above passes_skip, fun calls c t => ?_⟩,
    fun reading room => ⟨ended_rules tokens reading room, ended_rulesInTurn tokens reading room⟩⟩
  obtain ⟨he, hs⟩ := total_ample passes_skip (Nat.le_refl (ample c)) t
  exact ⟨he, hs, fun room hroom => endless_of_ample passes_skip hroom calls t⟩

end Klex.Grammar
