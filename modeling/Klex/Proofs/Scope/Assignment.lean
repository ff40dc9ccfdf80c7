import Klex.Proofs.Scope.Growth
import Klex.Scope.Key

/-!
# Assignment

An assignment writes where the name is bound already, and a look-up reads from the same place.

* **`Heap.Nearest`** — the scope in which the walk outward first meets a name; it is the one that the
  search finds (`Heap.nearest_iff`).
* **`Heap.OneEntry`** — two heaps differ in one entry of one scope.
* **`Heap.OneEntry.lookup?`** — what every scope sees afterwards, in terms of what it saw before.
* **`Heap.assign_lookup`** — **an assignment changes the one entry that the scope sees, or makes one in
  the scope itself; every other look-up, from any scope, comes out as before.**

Scopes share the outer part of their chains, so one assignment can be seen from many scopes, and a name
that is bound further in hides it from others.  Whether a scope sees it depends on the one question
which binding is nearest.
-/

namespace Klex

namespace Heap

variable {h : Heap} {s t o w : ScopeId} {name m : String} {v : Value}

/-! ### The nearest scope -/

/-- The walk outward from `s` first meets the name in `o`. -/
inductive Nearest (h : Heap) (name : String) : ScopeId → ScopeId → Prop
  | here {s : ScopeId} : h.binds name s = true → Nearest h name s s
  | outward {s p o : ScopeId} : h.binds name s = false → h.parent? s = some p →
      Nearest h name p o → Nearest h name s o

/-- The search looks at the scope itself, then at the scope around it. -/
theorem owner?_eq (hn : h.Nested) (s : ScopeId) (name : String) :
    h.owner? s name =
      if h.binds name s = true then some s else (h.parent? s).bind fun p => h.owner? p name := by
  rw [owner?, chain_eq hn, List.find?_cons]
  cases hb : h.binds name s with
  | true => rfl
  | false => cases h.parent? s <;> rfl

/-- **The search finds the nearest scope.** -/
theorem nearest_iff (hn : h.Nested) : h.Nearest name s o ↔ h.owner? s name = some o := by
  constructor
  · intro ho
    induction ho with
    | here hb => rw [owner?_eq hn, if_pos hb]
    | outward hb hp _ ih =>
      rw [owner?_eq hn, if_neg (by simp [hb]), hp]
      exact ih
  · induction s using Nat.strongRecOn with
    | ind s ih =>
      intro ho
      rw [owner?_eq hn] at ho
      cases hb : h.binds name s with
      | true =>
        rw [if_pos hb, Option.some.injEq] at ho
        exact ho ▸ .here hb
      | false =>
        rw [if_neg (by simp [hb]), Option.bind_eq_some_iff] at ho
        obtain ⟨p, hp, ho⟩ := ho
        exact .outward hb hp (ih p (hn s p hp) ho)

/-- No scope is nearest exactly if the search finds none. -/
theorem not_nearest_iff (hn : h.Nested) :
    (∀ o, ¬ h.Nearest name s o) ↔ h.owner? s name = none := by
  simp only [nearest_iff hn, ← Option.eq_none_iff_forall_ne_some]

/-- What a name stands for is what the nearest scope binds it to. -/
theorem lookup?_of_owner (ho : h.owner? s name = some o) :
    h.lookup? s name = Bindings.get? (h.bindings o) name := by
  rw [lookup?, ho]
  rfl

theorem lookup?_of_unowned (ho : h.owner? s name = none) : h.lookup? s name = none := by
  rw [lookup?, ho]
  rfl

/-! ### One entry of one scope -/

/-- Two heaps differ in the entry of a name in one scope: it has the given value in the second, where it
keeps its place among the names of the scope or, being new, comes last. -/
structure OneEntry (w : ScopeId) (name : String) (v : Value) (h h' : Heap) : Prop where
  size : h'.size = h.size
  others : ∀ t, t ≠ w → h'.scopes[t]? = h.scopes[t]?
  parent : h'.parent? w = h.parent? w
  boundary : h'.boundary? w = h.boundary? w
  entry : Bindings.get? (h'.bindings w) name = some v
  entries : ∀ m, m ≠ name → Bindings.get? (h'.bindings w) m = Bindings.get? (h.bindings w) m
  names : Bindings.names (h'.bindings w) =
    if h.binds name w = true then Bindings.names (h.bindings w)
    else Bindings.names (h.bindings w) ++ [name]

/-- A binding changes one entry. -/
theorem OneEntry.define (hw : w < h.size) (name : String) (v : Value) :
    OneEntry w name v h (h.define w name v) where
  size := size_define h w name v
  others t ht := by rw [getElem?_define, if_neg (Ne.symm ht)]
  parent := parent?_define h w w name v
  boundary := boundary?_define h w w name v
  entry := by rw [bindings_define_self h name v hw, Bindings.get?_put_self]
  entries m hm := by rw [bindings_define_self h name v hw, Bindings.get?_put_of_ne v hm]
  names := by
    rw [bindings_define_self h name v hw, Bindings.names_put]
    simp only [binds_iff]

namespace OneEntry

variable {h' : Heap}

/-- The scopes stand in each other as before. -/
theorem parent? (hh : OneEntry w name v h h') (t : ScopeId) : h'.parent? t = h.parent? t := by
  by_cases ht : t = w
  · rw [ht, hh.parent]
  · rw [Heap.parent?, Heap.parent?, hh.others t ht]

theorem nested (hh : OneEntry w name v h h') (hn : h.Nested) : h'.Nested := by
  intro t p hp
  rw [hh.parent? t] at hp
  exact hn t p hp

/-- Only the one entry of the one scope is another. -/
theorem get? (hh : OneEntry w name v h h') (t : ScopeId) (m : String) :
    Bindings.get? (h'.bindings t) m =
      if t = w ∧ m = name then some v else Bindings.get? (h.bindings t) m := by
  by_cases ht : t = w
  · subst ht
    by_cases hm : m = name
    · rw [if_pos ⟨rfl, hm⟩, hm, hh.entry]
    · rw [if_neg fun h => hm h.2, hh.entries m hm]
  · rw [if_neg fun h => ht h.1, bindings, bindings, hh.others t ht]

theorem binds_self (hh : OneEntry w name v h h') : h'.binds name w = true := by
  rw [binds, hh.entry]
  rfl

theorem binds_of_ne (hh : OneEntry w name v h h') (hne : ¬ (t = w ∧ m = name)) :
    h'.binds m t = h.binds m t := by
  rw [binds, binds, hh.get?, if_neg hne]

/-- **If the scope of the entry is not the nearest one afterwards, the nearest one is as before.** -/
theorem owner? (hh : OneEntry w name v h h') (hn : h.Nested)
    (hne : ¬ (m = name ∧ h'.owner? t m = some w)) : h'.owner? t m = h.owner? t m := by
  induction t using Nat.strongRecOn with
  | ind t ih =>
    rw [owner?_eq (hh.nested hn)] at hne ⊢
    rw [owner?_eq hn, hh.parent? t]
    have hbinds : h'.binds m t = h.binds m t := by
      apply hh.binds_of_ne
      rintro ⟨rfl, rfl⟩
      rw [if_pos hh.binds_self] at hne
      exact hne ⟨rfl, rfl⟩
    rw [hbinds] at hne ⊢
    by_cases hb : h.binds m t = true
    · rw [if_pos hb, if_pos hb]
    · rw [if_neg hb, hh.parent? t] at hne
      rw [if_neg hb, if_neg hb]
      cases hp : h.parent? t with
      | none => rfl
      | some p =>
        rw [hp] at hne
        exact ih p (hn t p hp) hne

/-- **What a scope sees afterwards**: the new value, if the scope of the entry is the nearest one that
binds the name, and otherwise what it saw before. -/
theorem lookup? (hh : OneEntry w name v h h') (hn : h.Nested) (t : ScopeId) (m : String) :
    h'.lookup? t m =
      if m = name ∧ h'.owner? t m = some w then some v else h.lookup? t m := by
  by_cases hseen : m = name ∧ h'.owner? t m = some w
  · rw [if_pos hseen, lookup?_of_owner hseen.2, hseen.1, hh.entry]
  · rw [if_neg hseen]
    have howner := hh.owner? hn hseen
    cases ho : h'.owner? t m with
    | none => rw [lookup?_of_unowned ho, lookup?_of_unowned (howner ▸ ho)]
    | some o =>
      rw [lookup?_of_owner ho, lookup?_of_owner (howner ▸ ho), hh.get?, if_neg]
      rintro ⟨rfl, rfl⟩
      exact hseen ⟨rfl, ho⟩

end OneEntry

/-! ### Assignment -/

/-- The scope that an assignment writes to is there. -/
theorem written_lt (hs : s < h.size) (name : String) : (h.owner? s name).getD s < h.size := by
  cases ho : h.owner? s name with
  | none => exact hs
  | some o => exact lt_of_binds (owner?_binds ho).1

/-- After an assignment, the scope that was written to is the nearest one. -/
theorem owner?_assign (hn : h.Nested) (hs : s < h.size) (name : String) (v : Value) :
    (h.assign s name v).owner? s name = some ((h.owner? s name).getD s) := by
  have hone := OneEntry.define (written_lt hs name) name v
  rw [assign]
  cases ho : h.owner? s name with
  | none =>
    -- the scope itself binds the name now
    rw [ho, Option.getD_none] at hone
    rw [Option.getD_none, owner?_eq (hone.nested hn), if_pos hone.binds_self]
  | some o =>
    -- were another scope nearest, it would have been nearest before
    rw [ho, Option.getD_some] at hone
    rw [Option.getD_some]
    refine Decidable.byContradiction fun hne => hne ?_
    rw [hone.owner? hn fun hseen => hne hseen.2, ho]

/-- **An assignment writes where the name is seen.**  Exactly one entry of one scope changes: that of
the name in the nearest scope that binds it, or a new one in the scope of the assignment if none does.
From there the name then has the new value; and for all scopes and names, a look-up gives the new value
if the written scope is the nearest one to bind the assigned name, and otherwise comes out as it did,
with the value or with the refusal. -/
theorem assign_lookup (hn : h.Nested) (hs : s < h.size) (name : String) (v : Value) :
    ∃ w, (h.Nearest name s w ∨ (∀ o, ¬ h.Nearest name s o) ∧ w = s) ∧
      OneEntry w name v h (h.assign s name v) ∧
      (∀ pos, (h.assign s name v).lookup s name pos = .ok v) ∧
      ∀ t m pos,
        (m = name ∧ (h.assign s name v).Nearest name t w →
          (h.assign s name v).lookup t m pos = .ok v) ∧
        (¬ (m = name ∧ (h.assign s name v).Nearest name t w) →
          (h.assign s name v).lookup t m pos = h.lookup t m pos) := by
  have hone : OneEntry ((h.owner? s name).getD s) name v h (h.assign s name v) :=
    .define (written_lt hs name) name v
  refine ⟨(h.owner? s name).getD s, ?_, hone, ?_, ?_⟩
  · cases ho : h.owner? s name with
    | some o => exact .inl ((nearest_iff hn).2 ho)
    | none => exact .inr ⟨(not_nearest_iff hn).2 ho, rfl⟩
  · intro pos
    rw [lookup, hone.lookup? hn, if_pos ⟨rfl, owner?_assign hn hs name v⟩]
  · intro t m pos
    rw [lookup, lookup, hone.lookup? hn, nearest_iff (hone.nested hn)]
    constructor
    · rintro ⟨rfl, ho⟩
      rw [if_pos ⟨rfl, ho⟩]
    · intro hother
      rw [if_neg]
      rintro ⟨rfl, ho⟩
      exact hother ⟨rfl, ho⟩

/-- Three scopes in each other.  The outermost and the innermost bind `x`, the one between them `y`. -/
def shadowed : Heap :=
  ⟨#[⟨[("x", .int 1)], none, false⟩, ⟨[("y", .null)], some 0, false⟩, ⟨[("x", .int 2)], some 1, true⟩]⟩

theorem shadowed_nested : shadowed.Nested := by
  intro s p hp
  match s with
  | 0 => exact absurd hp (by simp [shadowed, parent?])
  | 1 | 2 =>
    have hp : some _ = some p := hp
    simp only [Option.some.injEq] at hp
    omega
  | s + 3 => exact absurd hp (by rw [parent?_of_le (Nat.le_add_left 3 s)]; simp)

/-- An assignment in the middle scope goes to the outermost one; the innermost sees its own `x`. -/
theorem assign_lookup_shadowed :
    (shadowed.Nested ∧ 1 < shadowed.size) ∧
      OneEntry 0 "x" (.int 3) shadowed (shadowed.assign 1 "x" (.int 3)) ∧
      (shadowed.assign 1 "x" (.int 3)).lookup 1 "x" none = .ok (.int 3) ∧
      (shadowed.assign 1 "x" (.int 3)).lookup 2 "x" none = .ok (.int 2) := by
  have hs : 1 < shadowed.size := by decide
  obtain ⟨w, hw, hone, hself, hall⟩ := assign_lookup shadowed_nested hs "x" (.int 3)
  obtain rfl : w = 0 := by
    rcases hw with hw | ⟨hw, -⟩
    · exact (Option.some.inj ((nearest_iff shadowed_nested).1 hw)).symm
    · exact absurd ((nearest_iff shadowed_nested).2 rfl) (hw 0)
  refine ⟨⟨shadowed_nested, hs⟩, hone, hself none, ?_⟩
  refine ((hall 2 "x" none).2 ?_).trans rfl
  rintro ⟨-, hnear⟩
  have ho := (nearest_iff (hone.nested shadowed_nested)).1 hnear
  exact absurd ho (by decide)

end Heap

end Klex
