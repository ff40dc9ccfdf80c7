import Klex.Text.Order

/-!
# Sorted rows

* **`Text.sortOn_perm`** — sorting loses no item and makes none.
* **`Text.sortOn_sorted`** — **the keys of a sorted row do not descend.**
* **`Text.codePoints_lt_iff`** — what comes before what is decided by the first code points that differ.
* **`Text.sortOn_ascending`** — a row without duplicates comes out strictly ascending.
-/

namespace Klex.Text

section

variable {α : Type} {key : α → String}

theorem insertOn_perm (a : α) (row : List α) : (insertOn key a row).Perm (a :: row) := by
  induction row with
  | nil => exact .refl _
  | cons b rest ih =>
    rw [insertOn]
    split
    · exact (ih.cons b).trans (.swap a b rest)
    · exact .refl _

theorem sortOn_perm (row : List α) : (sortOn key row).Perm row := by
  induction row with
  | nil => exact .refl _
  | cons a rest ih => exact (insertOn_perm a _).trans (ih.cons a)

theorem insertOn_sorted (a : α) {row : List α} (h : row.Pairwise fun b c => key b ≤ key c) :
    (insertOn key a row).Pairwise fun b c => key b ≤ key c := by
  induction row with
  | nil => exact List.pairwise_singleton _ a
  | cons b rest ih =>
    obtain ⟨hb, hrest⟩ := List.pairwise_cons.1 h
    rw [insertOn]
    split
    · next hlt =>
      refine List.pairwise_cons.2 ⟨fun c hc => ?_, ih hrest⟩
      rcases List.mem_cons.1 ((insertOn_perm a rest).mem_iff.1 hc) with rfl | hc
      · exact String.lt_asymm hlt
      · exact hb c hc
    · next hle =>
      refine List.pairwise_cons.2 ⟨fun c hc => ?_, h⟩
      rcases List.mem_cons.1 hc with rfl | hc
      · exact hle
      · exact String.le_trans hle (hb c hc)

theorem sortOn_sorted (row : List α) : (sortOn key row).Pairwise fun b c => key b ≤ key c := by
  induction row with
  | nil => exact .nil
  | cons a rest ih => exact insertOn_sorted a ih

end

/-- The numbers of the characters of a text. -/
def codePoints (s : String) : List Nat := s.toList.map Char.toNat

theorem map_toNat_lt_iff (cs ds : List Char) :
    cs.map Char.toNat < ds.map Char.toNat ↔ cs < ds := by
  induction cs generalizing ds with
  | nil => cases ds <;> simp
  | cons c cs ih =>
    cases ds with
    | nil => simp
    | cons d ds =>
      rw [List.map_cons, List.map_cons, List.cons_lt_cons_iff, List.cons_lt_cons_iff, ih, Char.toNat_inj]
      rfl

/-- Texts are ordered as the rows of their code points are. -/
theorem codePoints_lt_iff (a b : String) : codePoints a < codePoints b ↔ a < b :=
  map_toNat_lt_iff a.toList b.toList

/-- Sorted names come in strictly ascending order if none comes twice. -/
theorem sortOn_ascending {row : List String} (h : row.Nodup) :
    (sortOn id row).Pairwise fun a b => codePoints a < codePoints b := by
  have hne : (sortOn id row).Pairwise (· ≠ ·) := (sortOn_perm row).nodup_iff.2 h
  refine ((sortOn_sorted row).and hne).imp fun hab => ?_
  rw [codePoints_lt_iff]
  exact Std.lt_of_le_of_ne hab.1 hab.2

end Klex.Text
