import Klex.Proofs.Grammar.Derivation
import Klex.Proofs.Grammar.Progress

/-!
# Rows of tokens with their layout

Which tokens of a row the grammar is about, and where they stand among the layout.

* **`significant`** — the tokens that are neither layout nor comments.
* **`place`** — where a significant token stands in the whole row.
* **`place_lt_place`**, **`place_max`** — later tokens stand further on.
* **`place_of_agree`** — rows that agree up to and including the token at a place have the same
  significant tokens up to there.
* **`Cursor.Settled`**, **`place_settled`** — a place of the row where no layout comes next is the place of
  a significant token, or the end.
-/

namespace Klex

namespace Grammar

/-- The tokens that are neither layout nor comments. -/
def significant (tokens : List Token) : List Token := tokens.filter fun t => !t.isTrivia

/-! ### Places of significant tokens -/

@[simp] theorem significant_nil : significant [] = [] := rfl

theorem significant_append (ts us : List Token) :
    significant (ts ++ us) = significant ts ++ significant us := List.filter_append ..

theorem significant_cons_trivia {t : Token} (h : t.isTrivia = true) (ts : List Token) :
    significant (t :: ts) = significant ts := by
  simp [significant, h]

theorem significant_cons {t : Token} (h : t.isTrivia = false) (ts : List Token) :
    significant (t :: ts) = t :: significant ts := by
  simp [significant, h]

/-- What can have a place in a tree is significant. -/
theorem significant_of_known {ts : List Token} (h : Known ts) : significant ts = ts := by
  refine List.filter_eq_self.2 fun t ht => ?_
  have hplace := h t ht
  rcases hk : t.kind <;> simp_all [Token.isTrivia, Kind.isTrivia, hasPlace]

/-- Where the significant token of an index stands in the whole row; the end if there is none. -/
def place : List Token → Nat → Nat
  | [], _ => 0
  | t :: ts, n =>
    if t.isTrivia then place ts n + 1
    else match n with
      | 0 => 0
      | n + 1 => place ts n + 1

theorem place_trivia {t : Token} (h : t.isTrivia = true) (ts : List Token) (n : Nat) :
    place (t :: ts) n = place ts n + 1 := by
  simp [place, h]

theorem place_zero {t : Token} (h : t.isTrivia = false) (ts : List Token) :
    place (t :: ts) 0 = 0 := by
  simp [place, h]

theorem place_succ {t : Token} (h : t.isTrivia = false) (ts : List Token) (n : Nat) :
    place (t :: ts) (n + 1) = place ts n + 1 := by
  simp [place, h]

/-- The token at the place is the significant token of the index. -/
theorem getElem?_place (tokens : List Token) (n : Nat) :
    tokens[place tokens n]? = (significant tokens)[n]? := by
  induction tokens generalizing n with
  | nil => simp [place]
  | cons t ts ih =>
    cases ht : t.isTrivia with
    | true => rw [place_trivia ht, significant_cons_trivia ht, List.getElem?_cons_succ, ih]
    | false =>
      rw [significant_cons ht]
      cases n with
      | zero => rw [place_zero ht, List.getElem?_cons_zero, List.getElem?_cons_zero]
      | succ n => rw [place_succ ht, List.getElem?_cons_succ, List.getElem?_cons_succ, ih]

/-- What stands before the place are the significant tokens before the index. -/
theorem significant_take_place (tokens : List Token) (n : Nat) :
    significant (tokens.take (place tokens n)) = (significant tokens).take n := by
  induction tokens generalizing n with
  | nil => simp
  | cons t ts ih =>
    cases ht : t.isTrivia with
    | true =>
      rw [place_trivia ht, List.take_succ_cons, significant_cons_trivia ht,
        significant_cons_trivia ht, ih]
    | false =>
      cases n with
      | zero => simp [place_zero ht]
      | succ n =>
        rw [place_succ ht, List.take_succ_cons, significant_cons ht, significant_cons ht,
          List.take_succ_cons, ih]

theorem place_lt_iff (tokens : List Token) (n : Nat) :
    place tokens n < tokens.length ↔ n < (significant tokens).length := by
  rw [← Nat.not_le, ← Nat.not_le, ← List.getElem?_eq_none_iff, ← List.getElem?_eq_none_iff,
    getElem?_place]

theorem place_le (tokens : List Token) (n : Nat) : place tokens n ≤ tokens.length := by
  induction tokens generalizing n with
  | nil => exact Nat.le_refl _
  | cons t ts ih =>
    cases ht : t.isTrivia with
    | true =>
      rw [place_trivia ht]
      exact Nat.succ_le_succ (ih n)
    | false =>
      cases n with
      | zero => simp [place_zero ht]
      | succ n =>
        rw [place_succ ht]
        exact Nat.succ_le_succ (ih n)

/-- **Rows that agree through a place** have the same significant token there, at the same place, and
the same ones before it. -/
theorem place_of_agree {tokens others : List Token} {n : Nat}
    (hn : n < (significant tokens).length)
    (h : others.take (place tokens n + 1) = tokens.take (place tokens n + 1)) :
    place others n = place tokens n ∧
      (significant others).take (n + 1) = (significant tokens).take (n + 1) := by
  induction tokens generalizing others n with
  | nil => simp at hn
  | cons t ts ih =>
    rcases others with _ | ⟨x, xs⟩
    · simp at h
    · obtain ⟨rfl, htake⟩ := by simpa using h
      cases ht : x.isTrivia with
      | true =>
        rw [place_trivia ht] at htake
        rw [significant_cons_trivia ht] at hn
        obtain ⟨hplace, hsig⟩ := ih hn htake
        exact ⟨by rw [place_trivia ht, place_trivia ht, hplace],
          by rw [significant_cons_trivia ht, significant_cons_trivia ht, hsig]⟩
      | false =>
        rw [significant_cons ht] at hn
        rw [significant_cons ht, significant_cons ht]
        cases n with
        | zero => exact ⟨by rw [place_zero ht, place_zero ht], by simp⟩
        | succ n =>
          rw [place_succ ht] at htake
          obtain ⟨hplace, hsig⟩ := ih (Nat.lt_of_succ_lt_succ hn) htake
          exact ⟨by rw [place_succ ht, place_succ ht, hplace],
            by rw [List.take_succ_cons, List.take_succ_cons, hsig]⟩

/-- A later significant token is further on in the whole row. -/
theorem place_lt_place {tokens : List Token} {m n : Nat} (hmn : m < n)
    (hm : m < (significant tokens).length) : place tokens m < place tokens n := by
  induction tokens generalizing m n with
  | nil => exact absurd hm (Nat.not_lt_zero m)
  | cons t ts ih =>
    cases ht : t.isTrivia with
    | true =>
      rw [significant_cons_trivia ht] at hm
      rw [place_trivia ht, place_trivia ht]
      exact Nat.succ_lt_succ (ih hmn hm)
    | false =>
      rw [significant_cons ht] at hm
      obtain ⟨n, rfl⟩ : ∃ n', n = n' + 1 := ⟨n - 1, by omega⟩
      cases m with
      | zero =>
        rw [place_zero ht, place_succ ht]
        exact Nat.succ_pos _
      | succ m =>
        rw [place_succ ht, place_succ ht]
        exact Nat.succ_lt_succ (ih (Nat.lt_of_succ_lt_succ hmn) (Nat.lt_of_succ_lt_succ hm))

theorem place_le_place (tokens : List Token) {m n : Nat} (hmn : m ≤ n) :
    place tokens m ≤ place tokens n := by
  by_cases hm : m < (significant tokens).length
  · rcases Nat.eq_or_lt_of_le hmn with rfl | hlt
    · exact Nat.le_refl _
    · exact Nat.le_of_lt (place_lt_place hlt hm)
  · -- both stand at the end
    have hend : ∀ k, m ≤ k → place tokens k = tokens.length := fun k hk =>
      Nat.le_antisymm (place_le tokens k)
        (Nat.not_lt.1 fun hlt => hm (Nat.lt_of_le_of_lt hk ((place_lt_iff tokens k).1 hlt)))
    exact Nat.le_of_eq ((hend m (Nat.le_refl m)).trans (hend n hmn).symm)

theorem place_max (tokens : List Token) (m n : Nat) :
    place tokens (max m n) = max (place tokens m) (place tokens n) := by
  rcases Nat.le_total m n with h | h
  · rw [Nat.max_eq_right h, Nat.max_eq_right (place_le_place tokens h)]
  · rw [Nat.max_eq_left h, Nat.max_eq_left (place_le_place tokens h)]

/-- Different tokens stand at different places. -/
theorem place_inj {tokens : List Token} {m n : Nat} (hm : m ≤ (significant tokens).length)
    (hn : n ≤ (significant tokens).length) (h : place tokens m = place tokens n) : m = n := by
  rcases Nat.lt_trichotomy m n with hlt | heq | hlt
  · have := place_lt_place hlt (Nat.lt_of_lt_of_le hlt hn)
    omega
  · exact heq
  · have := place_lt_place hlt (Nat.lt_of_lt_of_le hlt hm)
    omega

/-! ### Where layout was passed over -/

/-- No layout comes next. -/
def Cursor.Settled (c : Cursor) : Prop := ∀ x xs, c.rest = x :: xs → x.isTrivia = false

theorem Cursor.settled_settle (c : Cursor) : c.settle.Settled := by
  intro x xs h
  have hhead := List.head?_dropWhile_not Token.isTrivia c.rest
  rw [show c.rest.dropWhile Token.isTrivia = x :: xs from h] at hhead
  exact hhead

theorem significant_dropWhile (ts : List Token) :
    significant (ts.dropWhile Token.isTrivia) = significant ts := by
  induction ts with
  | nil => rfl
  | cons t ts ih =>
    cases ht : t.isTrivia with
    | true => rw [List.dropWhile_cons_of_pos ht, ih, significant_cons_trivia ht]
    | false => rw [List.dropWhile_cons_of_neg (by simp [ht])]

theorem place_append {us : List Token} (hus : ∀ x xs, us = x :: xs → x.isTrivia = false)
    (ts : List Token) : place (ts ++ us) (significant ts).length = ts.length := by
  induction ts with
  | nil =>
    rcases us with _ | ⟨u, us⟩
    · rfl
    · exact place_zero (hus u us rfl) us
  | cons t ts ih =>
    cases ht : t.isTrivia with
    | true => rw [List.cons_append, place_trivia ht, significant_cons_trivia ht, ih, List.length_cons]
    | false =>
      rw [List.cons_append, significant_cons ht, List.length_cons, place_succ ht, ih, List.length_cons]

/-- A place where no layout comes next is that of as many significant tokens as stand before it. -/
theorem place_settled {row : List Token} {c : Cursor} (hc : c.In row) (hs : c.Settled) :
    place row (significant (row.take c.index)).length = c.index := by
  have hrow : row = row.take c.index ++ c.rest := by rw [hc.rest, List.take_append_drop]
  have hlength : (row.take c.index).length = c.index := List.length_take_of_le hc.bound
  calc place row (significant (row.take c.index)).length
      = place (row.take c.index ++ c.rest) (significant (row.take c.index)).length := by rw [← hrow]
    _ = (row.take c.index).length := place_append hs _
    _ = c.index := hlength

end Grammar

end Klex
