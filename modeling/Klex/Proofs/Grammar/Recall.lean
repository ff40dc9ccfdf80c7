import Klex.Proofs.Grammar.Depth

/-!
# Remembered expressions

Looking up a basic expression that was read before changes nothing but the work done.

* **`Trail.Faithful`** — every entry of the trail is what reading afresh comes to, and the index noted
  then is not beyond the furthest one.  An entry may come from an alternative that was given up.
* **`Recalls`** — on a faithful trail the first rule comes to the reply of the second, has the same
  furthest index, and leaves a faithful trail.
* **`recalls_text`** — so a whole text that does not give up comes to the same.
* **`run_eq_or`**, **`run_eq_unlimited`** — **in either way of reading, a run gives up or comes to what
  it comes to without a limit**, and does the latter when the room is ample.
-/

namespace Klex.Grammar

open Rule

variable {gap : Rule Unit}

/-! ### Faithful trails -/

/-- The reply that an entry of the trail stands for. -/
def recalled : Option (Expr × Cursor) → Reply Expr
  | some (e, next) => .accept e next
  | none => .reject

/-- Every entry is what reading a basic expression afresh comes to, with its note taken. -/
def Trail.Faithful (gap : Rule Unit) (row : List Token) (t : Trail) : Prop :=
  ∀ n entry, t.basics[n]? = some entry →
    ∃ m, m ≤ t.furthest ∧ Runs (basic gap (endless gap)) ⟨n, row.drop n⟩ (recalled entry) m

theorem Trail.faithful_empty (row : List Token) : Trail.empty.Faithful gap row := by
  intro n entry h
  simp [Trail.empty] at h

theorem Trail.Faithful.note {row : List Token} {t : Trail} (h : t.Faithful gap row) (k : Nat) :
    (t.note k).Faithful gap row := by
  intro n entry hn
  obtain ⟨m, hm, hrun⟩ := h n entry hn
  exact ⟨m, Nat.le_trans hm (Nat.le_max_left _ _), hrun⟩

theorem Trail.Faithful.remember {row : List Token} {t : Trail} (h : t.Faithful gap row) {n m : Nat}
    {entry : Option (Expr × Cursor)} (hm : m ≤ t.furthest)
    (hrun : Runs (basic gap (endless gap)) ⟨n, row.drop n⟩ (recalled entry) m) :
    (t.remember n entry).Faithful gap row := by
  intro k entry' hk
  simp only [Trail.remember, Std.HashMap.getElem?_insert] at hk
  split at hk
  · next heq =>
    obtain rfl := Option.some.inj hk
    rw [← eq_of_beq heq]
    exact ⟨m, hm, hrun⟩
  · exact h k entry' hk

/-- On a faithful trail the first rule comes to the reply of the second and notes as much. -/
structure Recalls {α : Type} (gap : Rule Unit) (row : List Token) (p q : Rule α) : Prop where
  uniform : Uniform q
  steady : Steady row 0 q
  same : ∀ {c : Cursor} {t : Trail} {reply : Reply α} {m : Nat}, c.In row → t.Faithful gap row →
    Runs q c reply m → reply ≠ .tooDeep →
    ∃ u, p c t = (reply, u) ∧ u.furthest = max t.furthest m ∧ u.Faithful gap row

section

variable {α β : Type} {row : List Token}

/-- Rules that do not look at the trail recall themselves. -/
theorem Recalls.refl {p : Rule α} (hu : Uniform p) (hs : Steady row 0 p) : Recalls gap row p p where
  uniform := hu
  steady := hs
  same := fun _ ht hrun _ => ⟨_, hrun _, rfl, ht.note _⟩

theorem Recalls.next_in {p q : Rule α} (h : Recalls gap row p q) {c d : Cursor} {a : α} {m : Nat}
    (hc : c.In row) (hrun : Runs q c (.accept a d) m) : d.In row :=
  (h.steady.accepted hc (Trail.sane_empty row) (hrun .empty)).2.2.2

theorem Recalls.bind {p q : Rule α} {f g : α → Rule β} (h : Recalls gap row p q)
    (hf : ∀ a, Recalls gap row (f a) (g a)) : Recalls gap row (p >>= f) (q >>= g) where
  uniform := h.uniform.bind fun a => (hf a).uniform
  steady := h.steady.bind_left fun a => (hf a).steady
  same := by
    intro c t reply m hc ht hrun hne
    obtain ⟨⟨a, d⟩ | _ | _, m₁, hq⟩ := h.uniform c
    · obtain ⟨reply₂, m₂, hg⟩ := (hf a).uniform d
      obtain ⟨rfl, rfl⟩ := hrun.unique (hq.bind_accept hg)
      obtain ⟨u, hp, hu, htu⟩ := h.same hc ht hq (by simp)
      obtain ⟨v, hfv, hv, htv⟩ := (hf a).same (h.next_in hc hq) htu hg hne
      refine ⟨v, ?_, ?_, htv⟩
      · rw [bind_accept hp, hfv]
      · rw [hv, hu, Nat.max_assoc]
    · obtain ⟨rfl, rfl⟩ := hrun.unique hq.bind_reject
      obtain ⟨u, hp, hu, htu⟩ := h.same hc ht hq (by simp)
      exact ⟨u, bind_reject hp, hu, htu⟩
    · obtain ⟨rfl, -⟩ := hrun.unique hq.bind_tooDeep
      exact absurd rfl hne

theorem Recalls.orElse {p q p' q' : Rule α} (h : Recalls gap row p q) (h' : Recalls gap row p' q') :
    Recalls gap row (p <|> p') (q <|> q') where
  uniform := h.uniform.orElse h'.uniform
  steady := h.steady.orElse h'.steady
  same := by
    intro c t reply m hc ht hrun hne
    obtain ⟨⟨a, d⟩ | _ | _, m₁, hq⟩ := h.uniform c
    · obtain ⟨rfl, rfl⟩ := hrun.unique hq.orElse_accept
      obtain ⟨u, hp, hu, htu⟩ := h.same hc ht hq (by simp)
      exact ⟨u, orElse_accept hp, hu, htu⟩
    · obtain ⟨reply₂, m₂, hq'⟩ := h'.uniform c
      obtain ⟨rfl, rfl⟩ := hrun.unique (hq.orElse_reject hq')
      obtain ⟨u, hp, hu, htu⟩ := h.same hc ht hq (by simp)
      obtain ⟨v, hp', hv, htv⟩ := h'.same hc htu hq' hne
      refine ⟨v, ?_, ?_, htv⟩
      · rw [orElse_reject hp, hp']
      · rw [hv, hu, Nat.max_assoc]
    · obtain ⟨rfl, -⟩ := hrun.unique hq.orElse_tooDeep
      exact absurd rfl hne

theorem Recalls.optional {p q : Rule α} (h : Recalls gap row p q) :
    Recalls gap row p.optional q.optional where
  uniform := h.uniform.optional
  steady := h.steady.optional
  same := by
    intro c t reply m hc ht hrun hne
    obtain ⟨⟨a, d⟩ | _ | _, m₁, hq⟩ := h.uniform c
    · obtain ⟨rfl, rfl⟩ := hrun.unique hq.optional_accept
      obtain ⟨u, hp, hu, htu⟩ := h.same hc ht hq (by simp)
      exact ⟨u, optional_accept hp, hu, htu⟩
    · obtain ⟨rfl, rfl⟩ := hrun.unique hq.optional_reject
      obtain ⟨u, hp, hu, htu⟩ := h.same hc ht hq (by simp)
      exact ⟨u, optional_reject hp, hu, htu⟩
    · obtain ⟨rfl, -⟩ := hrun.unique hq.optional_tooDeep
      exact absurd rfl hne

/-- **A look-up comes to what reading afresh comes to**, and the index that reading afresh would note
is noted already. -/
theorem Recalls.remembered {p q : Rule Expr} (h : Recalls gap row p q)
    (hq : Refines q (basic gap (endless gap))) : Recalls gap row (Grammar.remembered p) q where
  uniform := h.uniform
  steady := h.steady
  same := by
    intro c t reply m hc ht hrun hne
    have hplain : Runs (basic gap (endless gap)) ⟨c.index, row.drop c.index⟩ reply m := by
      intro u
      rw [← hc.rest]
      exact hq.eq_of_ne (hrun u) hne
    unfold Grammar.remembered
    rcases hmem : t.basics[c.index]? with _ | entry
    · obtain ⟨u, hp, hu, htu⟩ := h.same hc ht hrun hne
      have hm : m ≤ u.furthest := by
        rw [hu]
        exact Nat.le_max_right _ _
      simp only [hp]
      rcases reply with ⟨e, d⟩ | _ | _
      · have hentry : Runs _ _ (recalled (some (e, d))) m := hplain
        exact ⟨_, rfl, hu, htu.remember hm hentry⟩
      · have hentry : Runs _ _ (recalled none) m := hplain
        exact ⟨_, rfl, hu, htu.remember hm hentry⟩
      · exact absurd rfl hne
    · obtain ⟨k, hk, hentry⟩ := ht c.index entry hmem
      obtain ⟨rfl, rfl⟩ := hplain.unique hentry
      refine ⟨t, ?_, (Nat.max_eq_left hk).symm, ht⟩
      rcases entry with _ | ⟨e, d⟩ <;> rfl

end

theorem recalls_congruence (gap : Rule Unit) (row : List Token) :
    Congruence row (fun {_} p q => Recalls gap row p q) := by
  have hmany : ∀ {α : Type} {p q : Rule α}, Recalls gap row p q → Recalls gap row (many p) (many q) := by
    intro α p q h
    have hupTo := manyUpTo_congr (R := fun {_} p q => Recalls gap row p q)
      (fun a => .refl (.pure a) (.pure a)) .bind .optional h
    exact {
      uniform := fun c => (hupTo (c.rest.length + 1)).uniform c
      steady := h.steady.many
      same := fun {c _ _ _} hc ht hrun hne => (hupTo (c.rest.length + 1)).same hc ht hrun hne }
  exact {
    pure := fun a => .refl (.pure a) (.pure a)
    read := fun f => .refl (.read f) ((Steady.read f).mono (Nat.zero_le _))
    bind := .bind
    orElse := .orElse
    optional := .optional
    many := fun _ h => hmany h
    placed := fun _ h => (Recalls.refl (fun _ => ⟨_, _, .pos?⟩) Steady.pos?).bind fun _ =>
      (hmany h).bind fun _ => .refl (.pure _) (.pure _) }

theorem recalls_rules (hg : Passes gap) (row : List Token) (room : Nat) :
    (rules gap .remembering room).Rel (Recalls gap row) (Recalls gap row) (rules gap .plain room) := by
  induction room with
  | zero =>
    exact ⟨fun _ => .refl (fun _ => ⟨_, _, .tooDeep⟩) Steady.tooDeep,
      fun _ => .refl (fun _ => ⟨_, _, .tooDeep⟩) Steady.tooDeep⟩
  | succ room ih =>
    obtain ⟨hse, hss⟩ := steady_rules (hg.steady row) .remembering room
    have hR := recalls_congruence gap row
    have hgap : Recalls gap row gap gap := .refl hg.uniform (hg.steady row)
    have hbasic : Refines (basic gap (rules gap .plain room)) (basic gap (endless gap)) :=
      (refines_congruence row).basic (.refl gap) (refines_endless hg room).expression
    exact ih.push
      (hR.expressionFrom (hg.steady row) hgap hse ih
        ((hR.basic hgap ih.expression).remembered hbasic))
      (hR.statementFrom hgap hss ih)

/-! ### Whole texts -/

theorem verdict_congr {a b : Reply Program × Trail} (hreply : a.1 = b.1)
    (hfurthest : a.2.furthest = b.2.furthest) : verdict a = verdict b := by
  obtain ⟨reply, t⟩ := a
  obtain ⟨reply', u⟩ := b
  obtain rfl : reply = reply' := hreply
  have hnotes : t.furthest = u.furthest := hfurthest
  rcases reply with ⟨p, next⟩ | _ | _ <;> simp only [verdict, hnotes]

/-- A whole text that does not give up comes to the same reply with the same furthest index if what was read
before is looked up. -/
theorem recalls_text (hg : Passes gap) {row : List Token} {r s : Rules}
    (hs : ∀ calls, Steady row 1 (r.statement calls))
    (h : r.Rel (Recalls gap row) (Recalls gap row) s)
    (hdeep : (text gap s (.start row) .empty).1 ≠ .tooDeep) :
    (text gap r (.start row) .empty).1 = (text gap s (.start row) .empty).1 ∧
      (text gap r (.start row) .empty).2.furthest = (text gap s (.start row) .empty).2.furthest := by
  have hgap : Recalls gap row gap gap := .refl hg.uniform (hg.steady row)
  have htext := (recalls_congruence gap row).text hgap hs h
  obtain ⟨reply, m, hrun⟩ := htext.uniform (.start row)
  rw [hrun .empty] at hdeep ⊢
  obtain ⟨u, hp, hu, -⟩ := htext.same (Cursor.start_in row) (Trail.faithful_empty row) hrun hdeep
  rw [hp]
  exact ⟨rfl, hu⟩

/-- With ample room a run comes to what it comes to without a limit, in either way of reading. -/
theorem run_eq_unlimited (hg : Passes gap) (reading : Reading) {room : Nat} {row : List Token}
    (h : ample (.start row) ≤ room) : run gap reading room row = unlimited gap row := by
  cases reading with
  | plain => exact run_plain_eq hg h
  | remembering =>
    rw [← run_plain_eq hg h]
    have hdeep := run_not_gaveUp hg .plain h
    rw [run, program, verdict_tooDeep] at hdeep
    obtain ⟨hreply, hfurthest⟩ := recalls_text hg
      (steady_rules (hg.steady row) .remembering room).statement (recalls_rules hg row room) hdeep
    exact verdict_congr hreply hfurthest

/-- **A run gives up or comes to what it comes to without a limit**, in either way of reading. -/
theorem run_eq_or (hg : Passes gap) (reading : Reading) (room : Nat) (row : List Token) :
    GaveUp (run gap reading room row) ∨ run gap reading room row = unlimited gap row := by
  rw [← run_eq_unlimited hg reading (Nat.le_max_right room (ample (.start row)))]
  exact run_mono hg reading (Nat.le_max_left room (ample (.start row))) row

end Klex.Grammar
