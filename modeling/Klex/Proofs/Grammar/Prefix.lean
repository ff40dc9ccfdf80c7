import Klex.Proofs.Grammar.Outcome

/-!
# Runs on rows that agree on a prefix

A run that gets stuck within a prefix has looked at nothing behind it.

* **`Agree`** — two rows have their first `n` tokens in common.
* **`Beside`**, **`Trail.Beside`** — the same place in both rows, within the prefix; trails with the
  same furthest index that remember the same expressions at such places.
* **`Follows`** — a run of the first rule in the first row whose notes stay below `n`, and which does
  not leave the prefix, is followed step by step by the second rule in the second row.
* **`follows_rules`** — the rules of the grammar follow themselves, in either way of reading and with
  any room.
* **`run_of_agree`** — **a refusal at a token depends on the tokens up to it alone.**

A run that leaves the prefix can come back only by rejecting, and a rejection notes a place behind
the prefix; this is why the furthest index alone tells that nothing behind it was looked at.
-/

namespace Klex.Grammar

open Rule

/-! ### The same place in two rows -/

/-- Two rows have their first `n` tokens in common. -/
structure Agree (row other : List Token) (n : Nat) : Prop where
  left : n ≤ row.length
  right : n ≤ other.length
  take : row.take n = other.take n

/-- The same place in both rows, within the prefix. -/
structure Beside (row other : List Token) (n : Nat) (c d : Cursor) : Prop where
  left : c.In row
  right : d.In other
  index : c.index = d.index
  bound : c.index ≤ n

/-- The same expression, ending at places beside each other. -/
def SameFound (row other : List Token) (n : Nat) (x y : Expr × Cursor) : Prop :=
  x.1 = y.1 ∧ Beside row other n x.2 y.2

/-- The same furthest index, and the same expressions remembered at places beside each other. -/
structure Trail.Beside (row other : List Token) (n : Nat) (t u : Trail) : Prop where
  furthest : t.furthest = u.furthest
  basics : ∀ k : Nat,
    Option.Rel (Option.Rel (SameFound row other n)) t.basics[k]? u.basics[k]?

section

variable {row other : List Token} {n : Nat} {c d : Cursor} {t u : Trail}

/-- Before the end of the prefix the same token follows. -/
theorem Beside.head (h : Beside row other n c d) (ha : Agree row other n) (hlt : c.index < n) :
    ∃ x xs ys, c.rest = x :: xs ∧ d.rest = x :: ys := by
  have hl : c.index < row.length := Nat.lt_of_lt_of_le hlt ha.left
  have hr : c.index < other.length := Nat.lt_of_lt_of_le hlt ha.right
  have hx : row[c.index] = other[c.index] := by
    have htake := congrArg (fun l => l[c.index]?) ha.take
    simpa [List.getElem?_take, hlt, hl, hr] using htake
  refine ⟨row[c.index], row.drop (c.index + 1), other.drop (c.index + 1), ?_, ?_⟩
  · rw [h.left.rest]
    exact List.drop_eq_getElem_cons hl
  · rw [h.right.rest, ← h.index, hx]
    exact List.drop_eq_getElem_cons hr

theorem Beside.next {xs ys : List Token} {x : Token} (h : Beside row other n c d)
    (hlt : c.index < n) (hc : c.rest = x :: xs) (hd : d.rest = x :: ys) :
    Beside row other n ⟨c.index + 1, xs⟩ ⟨d.index + 1, ys⟩ where
  left := h.left.next hc
  right := h.right.next hd
  index := by
    show c.index + 1 = d.index + 1
    rw [h.index]
  bound := hlt

theorem Beside.start (row other : List Token) (n : Nat) :
    Beside row other n (.start row) (.start other) where
  left := Cursor.start_in row
  right := Cursor.start_in other
  index := rfl
  bound := Nat.zero_le _

theorem Trail.Beside.empty (row other : List Token) (n : Nat) :
    Trail.Beside row other n .empty .empty where
  furthest := rfl
  basics := by
    intro k
    simp only [Trail.empty, Std.HashMap.getElem?_empty]
    exact .none

theorem Trail.Beside.note (h : Trail.Beside row other n t u) (k : Nat) :
    Trail.Beside row other n (t.note k) (u.note k) where
  furthest := by
    rw [Trail.furthest_note, Trail.furthest_note, h.furthest]
  basics := h.basics

theorem Trail.Beside.remember (h : Trail.Beside row other n t u) (k : Nat)
    {x y : Option (Expr × Cursor)}
    (hxy : Option.Rel (SameFound row other n) x y) :
    Trail.Beside row other n (t.remember k x) (u.remember k y) where
  furthest := h.furthest
  basics := by
    intro m
    simp only [Trail.remember, Std.HashMap.getElem?_insert]
    split
    · exact .some hxy
    · exact h.basics m

end

/-! ### Rules that follow each other -/

/-- A run of the first rule that stays within the prefix is followed by the second rule. -/
structure Follows {α : Type} (row other : List Token) (n : Nat) (p q : Rule α) : Prop where
  steady : Steady row 0 p
  accept : ∀ {c d e : Cursor} {t u v : Trail} {a : α}, Beside row other n c d → t.Sane row →
    Trail.Beside row other n t u → p c t = (.accept a e, v) → v.furthest < n → e.index ≤ n →
    ∃ e' v', q d u = (.accept a e', v') ∧ Beside row other n e e' ∧ Trail.Beside row other n v v'
  reject : ∀ {c d : Cursor} {t u v : Trail}, Beside row other n c d → t.Sane row →
    Trail.Beside row other n t u → p c t = (.reject, v) → v.furthest < n →
    ∃ v', q d u = (.reject, v') ∧ Trail.Beside row other n v v'

section

variable {α β : Type} {row other : List Token} {n : Nat}

theorem Follows.pure (a : α) : Follows row other n (pure a) (pure a) where
  steady := Steady.pure a
  accept := by
    intro c d e t u v b hcd ht htu hp hv he
    obtain ⟨⟨rfl, rfl⟩, rfl⟩ := by simpa [pure_run] using hp
    exact ⟨d, u, rfl, hcd, htu⟩
  reject := by
    intro c d t u v hcd ht htu hp hv
    simp [pure_run] at hp

theorem Follows.tooDeep (q : Rule α) : Follows row other n Rule.tooDeep q where
  steady := Steady.tooDeep
  accept := by
    intro c d e t u v a hcd ht htu hp hv he
    simp [Rule.tooDeep] at hp
  reject := by
    intro c d t u v hcd ht htu hp hv
    simp [Rule.tooDeep] at hp

theorem Follows.read (ha : Agree row other n) (f : Token → Option α) :
    Follows row other n (read f) (read f) where
  steady := (Steady.read f).mono (Nat.zero_le _)
  accept := by
    intro c d e t u v a hcd ht htu hp hv he
    obtain ⟨-, -, hread, -⟩ := (Steady.read f).accepted hcd.left ht hp
    have hlt : c.index < n := Nat.lt_of_lt_of_le hread he
    obtain ⟨x, xs, ys, hc, hd⟩ := hcd.head ha hlt
    rcases hx : f x with _ | b
    · rw [read_none t hc hx] at hp
      simp at hp
    · rw [read_some t hc hx] at hp
      obtain ⟨⟨rfl, rfl⟩, rfl⟩ := by simpa using hp
      exact ⟨_, u, read_some u hd hx, hcd.next hlt hc hd, htu⟩
  reject := by
    intro c d t u v hcd ht htu hp hv
    obtain ⟨-, -, hle⟩ := (Steady.read f).rejected hcd.left ht hp
    obtain ⟨x, xs, ys, hc, hd⟩ := hcd.head ha (Nat.lt_of_le_of_lt hle hv)
    rcases hx : f x with _ | b
    · rw [read_none t hc hx] at hp
      obtain rfl := by simpa using hp
      refine ⟨_, read_none u hd hx, ?_⟩
      rw [← hcd.index]
      exact htu.note _
    · rw [read_some t hc hx] at hp
      simp at hp

theorem Follows.bind {p q : Rule α} {f g : α → Rule β} (h : Follows row other n p q)
    (hf : ∀ a, Follows row other n (f a) (g a)) : Follows row other n (p >>= f) (q >>= g) where
  steady := h.steady.bind_left fun a => (hf a).steady
  accept := by
    intro c d e t u v b hcd ht htu hp hv he
    obtain ⟨a, c₁, t₁, hp₁, hp₂⟩ := bind_accepted hp
    obtain ⟨ht₁, -, -, hc₁⟩ := h.steady.accepted hcd.left ht hp₁
    -- what follows neither goes back nor forgets a note
    obtain ⟨-, hmono, hback, -⟩ := (hf a).steady.accepted hc₁ ht₁ hp₂
    obtain ⟨d₁, u₁, hq₁, hcd₁, htu₁⟩ :=
      h.accept hcd ht htu hp₁ (Nat.lt_of_le_of_lt hmono hv) (by omega)
    obtain ⟨e', v', hq₂, hee, hvv⟩ := (hf a).accept hcd₁ ht₁ htu₁ hp₂ hv he
    exact ⟨e', v', by rw [bind_accept hq₁, hq₂], hee, hvv⟩
  reject := by
    intro c d t u v hcd ht htu hp hv
    rcases hp₁ : p c t with ⟨⟨a, c₁⟩ | _ | _, t₁⟩
    · rw [bind_accept hp₁] at hp
      obtain ⟨ht₁, -, -, hc₁⟩ := h.steady.accepted hcd.left ht hp₁
      obtain ⟨-, hmono, hback⟩ := (hf a).steady.rejected hc₁ ht₁ hp
      obtain ⟨d₁, u₁, hq₁, hcd₁, htu₁⟩ :=
        h.accept hcd ht htu hp₁ (Nat.lt_of_le_of_lt hmono hv) (by omega)
      obtain ⟨v', hq₂, hvv⟩ := (hf a).reject hcd₁ ht₁ htu₁ hp hv
      exact ⟨v', by rw [bind_accept hq₁, hq₂], hvv⟩
    · rw [bind_reject hp₁] at hp
      obtain rfl := by simpa using hp
      obtain ⟨v', hq₁, hvv⟩ := h.reject hcd ht htu hp₁ hv
      exact ⟨v', bind_reject hq₁, hvv⟩
    · rw [bind_tooDeep hp₁] at hp
      simp at hp

theorem Follows.orElse {p q p' q' : Rule α} (h : Follows row other n p q)
    (h' : Follows row other n p' q') : Follows row other n (p <|> p') (q <|> q') where
  steady := h.steady.orElse h'.steady
  accept := by
    intro c d e t u v a hcd ht htu hp hv he
    rcases hp₁ : p c t with ⟨⟨b, c₁⟩ | _ | _, t₁⟩
    · rw [orElse_accept hp₁] at hp
      rw [hp] at hp₁
      obtain ⟨e', v', hq, hee, hvv⟩ := h.accept hcd ht htu hp₁ hv he
      exact ⟨e', v', orElse_accept hq, hee, hvv⟩
    · rw [orElse_reject hp₁] at hp
      obtain ⟨ht₁, -, -⟩ := h.steady.rejected hcd.left ht hp₁
      obtain ⟨-, hmono, -, -⟩ := h'.steady.accepted hcd.left ht₁ hp
      obtain ⟨u₁, hq₁, htu₁⟩ := h.reject hcd ht htu hp₁ (Nat.lt_of_le_of_lt hmono hv)
      obtain ⟨e', v', hq₂, hee, hvv⟩ := h'.accept hcd ht₁ htu₁ hp hv he
      exact ⟨e', v', by rw [orElse_reject hq₁, hq₂], hee, hvv⟩
    · rw [orElse_tooDeep hp₁] at hp
      simp at hp
  reject := by
    intro c d t u v hcd ht htu hp hv
    rcases hp₁ : p c t with ⟨⟨b, c₁⟩ | _ | _, t₁⟩
    · rw [orElse_accept hp₁] at hp
      simp at hp
    · rw [orElse_reject hp₁] at hp
      obtain ⟨ht₁, -, -⟩ := h.steady.rejected hcd.left ht hp₁
      obtain ⟨-, hmono, -⟩ := h'.steady.rejected hcd.left ht₁ hp
      obtain ⟨u₁, hq₁, htu₁⟩ := h.reject hcd ht htu hp₁ (Nat.lt_of_le_of_lt hmono hv)
      obtain ⟨v', hq₂, hvv⟩ := h'.reject hcd ht₁ htu₁ hp hv
      exact ⟨v', by rw [orElse_reject hq₁, hq₂], hvv⟩
    · rw [orElse_tooDeep hp₁] at hp
      simp at hp

theorem Follows.optional {p q : Rule α} (h : Follows row other n p q) :
    Follows row other n p.optional q.optional where
  steady := h.steady.optional
  accept := by
    intro c d e t u v a hcd ht htu hp hv he
    rcases hp₁ : p c t with ⟨⟨b, c₁⟩ | _ | _, t₁⟩
    · rw [optional_accept hp₁] at hp
      obtain ⟨⟨rfl, rfl⟩, rfl⟩ := by simpa using hp
      obtain ⟨e', v', hq, hee, hvv⟩ := h.accept hcd ht htu hp₁ hv he
      exact ⟨e', v', optional_accept hq, hee, hvv⟩
    · rw [optional_reject hp₁] at hp
      obtain ⟨⟨rfl, rfl⟩, rfl⟩ := by simpa using hp
      obtain ⟨v', hq, hvv⟩ := h.reject hcd ht htu hp₁ hv
      exact ⟨d, v', optional_reject hq, hcd, hvv⟩
    · rw [optional_tooDeep hp₁] at hp
      simp at hp
  reject := by
    intro c d t u v hcd ht htu hp hv
    rcases hp₁ : p c t with ⟨⟨b, c₁⟩ | _ | _, t₁⟩
    · simp [optional_accept hp₁] at hp
    · simp [optional_reject hp₁] at hp
    · simp [optional_tooDeep hp₁] at hp

/-- Repetition on both sides goes on until the rule rejects, whatever the bounds on it, as long as
both bounds exceed what is left of the prefix. -/
theorem Follows.manyUpTo {p q : Rule α} (hp : Steady row 1 p) (h : Follows row other n p q) :
    ∀ {k m : Nat} {c d e : Cursor} {t u v : Trail} {items : List α}, n < c.index + k →
      n < c.index + m → Beside row other n c d → t.Sane row → Trail.Beside row other n t u →
      Rule.manyUpTo p k c t = (.accept items e, v) → v.furthest < n → e.index ≤ n →
      ∃ e' v', Rule.manyUpTo q m d u = (.accept items e', v') ∧ Beside row other n e e' ∧
        Trail.Beside row other n v v' := by
  intro k
  induction k with
  | zero =>
    intro m c d e t u v items hk hm hcd
    exact absurd hcd.bound (Nat.not_le.2 hk)
  | succ k ih =>
    intro m c d e t u v items hk hm hcd ht htu hrun hv he
    obtain ⟨m, rfl⟩ : ∃ m', m = m' + 1 := ⟨m - 1, by have := hcd.bound; omega⟩
    rcases hp₁ : p c t with ⟨⟨a, c₁⟩ | _ | _, t₁⟩
    · rw [manyUpTo_accept hp₁] at hrun
      obtain ⟨more, e₁, v₁, hmany, hrun⟩ := bind_accepted hrun
      obtain ⟨⟨rfl, rfl⟩, rfl⟩ := by simpa [pure_run] using hrun
      obtain ⟨ht₁, -, hread, hc₁⟩ := hp.accepted hcd.left ht hp₁
      obtain ⟨-, hmono, hback, -⟩ := (hp.manyUpTo k).accepted hc₁ ht₁ hmany
      obtain ⟨d₁, u₁, hq₁, hcd₁, htu₁⟩ :=
        h.accept hcd ht htu hp₁ (Nat.lt_of_le_of_lt hmono hv) (by omega)
      obtain ⟨e', v', hq₂, hee, hvv⟩ :=
        ih (m := m) (by omega) (by omega) hcd₁ ht₁ htu₁ hmany hv he
      refine ⟨e', v', ?_, hee, hvv⟩
      rw [manyUpTo_accept hq₁, bind_accept hq₂, pure_run]
    · rw [manyUpTo_reject hp₁] at hrun
      obtain ⟨⟨rfl, rfl⟩, rfl⟩ := by simpa using hrun
      obtain ⟨v', hq, hvv⟩ := h.reject hcd ht htu hp₁ hv
      exact ⟨d, v', manyUpTo_reject hq m, hcd, hvv⟩
    · rw [manyUpTo_tooDeep hp₁] at hrun
      simp at hrun

theorem Follows.many (ha : Agree row other n) {p q : Rule α} (hp : Steady row 1 p)
    (h : Follows row other n p q) : Follows row other n (Rule.many p) (Rule.many q) where
  steady := hp.many
  accept := by
    intro c d e t u v items hcd ht htu hrun hv he
    have hc := hcd.left.rest_length
    have hd := hcd.right.rest_length
    have hl := ha.left
    have hr := ha.right
    have hi := hcd.index
    exact h.manyUpTo hp (by omega) (by omega) hcd ht htu hrun hv he
  reject := by
    intro c d t u v hcd ht htu hrun hv
    exact absurd hrun (many_ne_reject p c t v)

/-- A row of items ends where the rule for an item rejects, so it was looked behind its end. -/
theorem many_looks {p : Rule α} (hp : Steady row 1 p) {c e : Cursor} {t v : Trail} {items : List α}
    (hc : c.In row) (ht : t.Sane row) (h : Rule.many p c t = (.accept items e, v)) :
    c.index ≤ e.index ∧ e.index ≤ v.furthest := by
  have hupTo : ∀ {k : Nat} {c : Cursor} {t : Trail} {items : List α}, c.In row → t.Sane row →
      row.length < c.index + k → Rule.manyUpTo p k c t = (.accept items e, v) →
      e.index ≤ v.furthest := by
    intro k
    induction k with
    | zero =>
      intro c t items hc ht hk h
      exact absurd hc.bound (Nat.not_le.2 hk)
    | succ k ih =>
      intro c t items hc ht hk h
      rcases hp₁ : p c t with ⟨⟨a, c₁⟩ | _ | _, t₁⟩
      · rw [manyUpTo_accept hp₁] at h
        obtain ⟨more, e₁, v₁, hmany, h⟩ := bind_accepted h
        obtain ⟨⟨-, rfl⟩, rfl⟩ := by simpa [pure_run] using h
        obtain ⟨ht₁, -, hread, hc₁⟩ := hp.accepted hc ht hp₁
        exact ih hc₁ ht₁ (by omega) hmany
      · rw [manyUpTo_reject hp₁] at h
        obtain ⟨⟨-, rfl⟩, rfl⟩ := by simpa using h
        exact (hp.rejected hc ht hp₁).2.2
      · simp [manyUpTo_tooDeep hp₁] at h
  have hlength := hc.rest_length
  exact ⟨(hp.many.accepted hc ht h).2.2.1, hupTo hc ht (by omega) h⟩

/-- The offset of the token that follows is looked at without a note, but what comes next looks at
the same token with one. -/
theorem Follows.placed (ha : Agree row other n) {p q : Rule α} (hp : Steady row 1 p)
    (h : Follows row other n p q) : Follows row other n (Rule.placed p) (Rule.placed q) where
  steady := hp.placed
  accept := by
    intro c d e t u v body hcd ht htu hrun hv he
    obtain ⟨pos, c₁, t₁, hpos, hrun⟩ := bind_accepted hrun
    obtain ⟨⟨rfl, rfl⟩, rfl⟩ := by simpa [Rule.pos?] using hpos
    obtain ⟨items, e₁, v₁, hmany, hrun⟩ := bind_accepted hrun
    obtain ⟨⟨rfl, rfl⟩, rfl⟩ := by simpa [pure_run] using hrun
    have hlt : c.index < n := by
      have := many_looks hp hcd.left ht hmany
      omega
    obtain ⟨x, xs, ys, hc, hd⟩ := hcd.head ha hlt
    have hsame : c.pos? = d.pos? := by rw [Cursor.pos?, Cursor.pos?, hc, hd, List.head?_cons,
      List.head?_cons]
    obtain ⟨e', v', hq, hee, hvv⟩ := (h.many ha hp).accept hcd ht htu hmany hv he
    refine ⟨e', v', ?_, hee, hvv⟩
    have hpos' : Rule.pos? d u = (.accept d.pos? d, u) := rfl
    rw [Rule.placed, bind_accept hpos', bind_accept hq, pure_run, hsame]
  reject := by
    intro c d t u v hcd ht htu hrun hv
    have hpos : Rule.pos? c t = (.accept c.pos? c, t) := rfl
    rw [Rule.placed, bind_accept hpos] at hrun
    rcases hmany : Rule.many p c t with ⟨⟨items, e⟩ | _ | _, w⟩
    · rw [bind_accept hmany] at hrun
      simp [pure_run] at hrun
    · exact absurd hmany (many_ne_reject p c t w)
    · rw [bind_tooDeep hmany] at hrun
      simp at hrun

theorem Follows.remembered {p q : Rule Expr} (hp : Steady row 1 p) (h : Follows row other n p q) :
    Follows row other n (Grammar.remembered p) (Grammar.remembered q) where
  steady := hp.remembered.mono (Nat.zero_le _)
  accept := by
    intro c d e t u v a hcd ht htu hrun hv he
    have hmem := htu.basics c.index
    unfold Grammar.remembered at hrun ⊢
    rw [← hcd.index]
    generalize t.basics[c.index]? = x at hrun hmem
    generalize u.basics[c.index]? = y at hmem
    cases hmem with
    | none =>
      rcases hp₁ : p c t with ⟨⟨a', c₁⟩ | _ | _, t₁⟩
      · simp only [hp₁] at hrun
        obtain ⟨⟨rfl, rfl⟩, rfl⟩ := by simpa using hrun
        obtain ⟨e', v', hq, hee, hvv⟩ := h.accept hcd ht htu hp₁ hv he
        simp only [hq]
        exact ⟨_, _, rfl, hee, hvv.remember _ (.some ⟨rfl, hee⟩)⟩
      · simp [hp₁] at hrun
      · simp [hp₁] at hrun
    | some hxy =>
      cases hxy with
      | none => simp at hrun
      | some hsame =>
        obtain ⟨hsame, hee⟩ := hsame
        obtain ⟨⟨rfl, rfl⟩, rfl⟩ := by simpa using hrun
        exact ⟨_, _, by rw [hsame], hee, htu⟩
  reject := by
    intro c d t u v hcd ht htu hrun hv
    have hmem := htu.basics c.index
    unfold Grammar.remembered at hrun ⊢
    rw [← hcd.index]
    generalize t.basics[c.index]? = x at hrun hmem
    generalize u.basics[c.index]? = y at hmem
    cases hmem with
    | none =>
      rcases hp₁ : p c t with ⟨⟨a', c₁⟩ | _ | _, t₁⟩
      · simp [hp₁] at hrun
      · simp only [hp₁] at hrun
        obtain rfl := by simpa using hrun
        obtain ⟨v', hq, hvv⟩ := h.reject hcd ht htu hp₁ hv
        simp only [hq]
        exact ⟨_, rfl, hvv.remember _ .none⟩
      · simp [hp₁] at hrun
    | some hxy =>
      cases hxy with
      | none =>
        obtain rfl := by simpa using hrun
        exact ⟨_, rfl, htu⟩
      | some hsame => simp at hrun

end

theorem follows_congruence {row other : List Token} {n : Nat} (ha : Agree row other n) :
    Congruence row (fun {_} p q => Follows row other n p q) where
  pure := .pure
  read := .read ha
  bind := .bind
  orElse := .orElse
  optional := .optional
  many := .many ha
  placed := .placed ha

/-- The rules of the grammar follow themselves. -/
theorem follows_rules {row other : List Token} {n : Nat} (ha : Agree row other n)
    (reading : Reading) (room : Nat) :
    (rules tight reading room).Rel (Follows row other n) (Follows row other n)
      (rules tight reading room) :=
  have hgap : Follows row other n tight tight := .pure ()
  (follows_congruence ha).rules (passes_tight.steady row) hgap reading (fun _ _ _ => .remembered)
    (.tooDeep _) room

/-! ### Whole texts -/

/-- **A refusal at a token depends on the tokens up to it alone.** -/
theorem run_of_agree {reading : Reading} {room : Nat} {row other : List Token} {index : Nat}
    (hrun : run tight reading room row = .error (.stuckAt index)) (hindex : index < row.length)
    (hother : other.take (index + 1) = row.take (index + 1)) :
    run tight reading room other = .error (.stuckAt index) := by
  have hlength : index + 1 ≤ other.length := by
    have hl := congrArg List.length hother
    rw [List.length_take, List.length_take] at hl
    omega
  have ha : Agree row other (index + 1) := ⟨hindex, hlength, hother.symm⟩
  have hgap : Follows row other (index + 1) tight tight := .pure ()
  have hfollows := (follows_congruence ha).text hgap
    (steady_rules (passes_tight.steady row) reading room).statement (follows_rules ha reading room)
  have hcd := Beside.start row other (index + 1)
  have htu := Trail.Beside.empty row other (index + 1)
  have hsane := Trail.sane_empty row
  rw [run, program] at hrun ⊢
  rcases verdict_stuckAt hrun with ⟨p, e, v, htext, -, hmax⟩ | ⟨v, htext, hfar⟩
  · -- both the furthest index and the end of what was read are at most the index
    obtain ⟨e', v', hq, hee, hvv⟩ :=
      hfollows.accept hcd hsane htu htext (by omega) (by omega)
    have hrest : e'.rest ≠ [] := by
      have hindex' := hee.index
      exact hee.right.rest_ne_nil (by omega)
    rw [hq, verdict_accept hrest, ← hvv.furthest, ← hee.index, hmax]
  · obtain ⟨v', hq, hvv⟩ := hfollows.reject hcd hsane htu htext (by omega)
    rw [hq, verdict, ← hvv.furthest, hfar]

/-- **No continuation repairs a row that is refused at a token.**  A row that agrees with it up to and
including that token is refused at the same place, with the same cause and offset. -/
theorem refusedAt_of_agree (reading : Reading) (room : Nat) (tokens others : List Token) (k : Nat)
    (h : RefusedAt reading room tokens k) (hk : k < tokens.length)
    (hagree : others.take (k + 1) = tokens.take (k + 1)) :
    ∃ t, tokens[k]? = some t ∧
      Program.ofTokensWithin reading room tokens = .error ⟨.unexpected t.text, some t.pos⟩ ∧
      RefusedAt reading room others k ∧
      Program.ofTokensWithin reading room others = .error ⟨.unexpected t.text, some t.pos⟩ := by
  have hfail := h.failure.2
  obtain ⟨index, hrun, rfl⟩ := refusedAt_iff.1 h
  have hindex : index < (significant tokens).length := (place_lt_iff tokens index).1 hk
  obtain ⟨hplace, hsig⟩ := place_of_agree hindex hagree
  have hothers : RefusedAt reading room others (place tokens index) :=
    refusedAt_iff.2 ⟨index, run_of_agree hrun hindex hsig, hplace.symm⟩
  have hsame : others[place tokens index]? = tokens[place tokens index]? := by
    rw [← List.getElem?_take_of_lt (Nat.lt_succ_self _), hagree,
      List.getElem?_take_of_lt (Nat.lt_succ_self _)]
  have hfail' := hothers.failure.2
  rw [failureAt, hsame] at hfail'
  rw [failureAt] at hfail
  rw [List.getElem?_eq_getElem hk] at hfail hfail' ⊢
  exact ⟨_, rfl, hfail, hothers, hfail'⟩

/-- The row `x = )`, which is refused at its parenthesis. -/
def strayParen : List Token :=
  [.spelled .identifier "x" 0, .blank " " 1, .spelled .assign "=" 2, .spelled .closeParen ")" 3]

/-- Whatever follows `x = )` is no use. -/
theorem refusedAt_of_agree_strayParen :
    RefusedAt .plain callLimit strayParen 3 ∧
      Program.ofTokens callLimit (strayParen ++ [.unnamed .number "1" 4 (.int 1) rfl])
        = .error ⟨.unexpected ")", some 3⟩ := by
  have h : RefusedAt .plain callLimit strayParen 3 := rfl
  obtain ⟨t, ht, -, -, hfail⟩ := refusedAt_of_agree .plain callLimit strayParen
    (strayParen ++ [.unnamed .number "1" 4 (.int 1) rfl]) 3 h (by decide) rfl
  obtain rfl : _ = t := Option.some.inj ht
  exact ⟨h, hfail⟩

end Klex.Grammar
