import Klex.Scope

/-!
# How scopes change over time

* **`Heap.size`** — how many scopes there are.
* **`Heap.Nested`** — every scope stands inside a scope made before it.  Then a chain goes outward to a
  scope that stands in no other (`chain_ends`), so a search along it comes to an end.
* **`Heap.Grows`** — one heap is what became of another: its scopes are all there, each in the same
  place and of the same sort, with every name it had and in the same order.  Only scopes in a given
  set have got new names.
* **`Grows.lookup?_isSome`** — a name that can be seen from a scope can be seen from it ever after.

A heap changes by two operations only, `Heap.alloc` and `Heap.define`; the rest is made of them.
-/

namespace Klex

namespace Bindings

/-- A name is bound exactly if it is one of the bound names. -/
theorem get?_isSome (b : Bindings) (name : String) : (b.get? name).isSome ↔ name ∈ names b := by
  induction b with
  | nil => simp [get?, names]
  | cons p rest ih =>
    obtain ⟨key, v⟩ := p
    by_cases h : name = key
    · subst h
      simp [get?, names]
    · simp only [get?, List.lookup_cons, beq_false_of_ne h, names, List.map_cons, List.mem_cons, h,
        false_or] at ih ⊢
      exact ih

theorem mem_of_get? {b : Bindings} {name : String} {v : Value} (h : b.get? name = some v) :
    (name, v) ∈ b := by
  induction b with
  | nil => simp [get?] at h
  | cons p rest ih =>
    obtain ⟨key, old⟩ := p
    by_cases hk : name = key
    · subst hk
      simp only [get?, List.lookup_cons_self, Option.some.injEq] at h
      simp [h]
    · simp only [get?, List.lookup_cons, beq_false_of_ne hk] at h
      exact List.mem_cons_of_mem _ (ih h)

/-- What is bound afterwards was bound before or is the new binding. -/
theorem mem_put {b : Bindings} {name : String} {v : Value} {p : String × Value}
    (h : p ∈ put b name v) : p ∈ b ∨ p.2 = v := by
  induction b with
  | nil =>
    simp only [put, List.mem_singleton] at h
    exact .inr (by rw [h])
  | cons q rest ih =>
    obtain ⟨key, old⟩ := q
    by_cases hk : key = name
    · simp only [put, hk, if_true, List.mem_cons] at h
      rcases h with rfl | h
      · exact .inr rfl
      · exact .inl (List.mem_cons_of_mem _ h)
    · simp only [put, hk, if_false, List.mem_cons] at h
      rcases h with rfl | h
      · exact .inl List.mem_cons_self
      · rcases ih h with h | h
        · exact .inl (List.mem_cons_of_mem _ h)
        · exact .inr h

theorem names_isPrefix_put (b : Bindings) (name : String) (v : Value) :
    names b <+: names (put b name v) := by
  rw [names_put]
  split
  · exact List.prefix_rfl
  · exact List.prefix_append _ _

theorem names_put_of_mem {b : Bindings} {name : String} (v : Value) (h : name ∈ names b) :
    names (put b name v) = names b := by
  rw [names_put, if_pos h]

end Bindings

namespace Heap

/-! ### One scope of a heap -/

/-- How many scopes there are. -/
def size (h : Heap) : Nat := h.scopes.size

/-- Whether a scope belongs to a function call. -/
def boundary? (h : Heap) (s : ScopeId) : Option Bool := h.scopes[s]?.map Scope.boundary

section

variable (h : Heap) (s : ScopeId)

@[simp] theorem size_alloc (parent : Option ScopeId) (boundary : Bool) :
    (h.alloc parent boundary).2.size = h.size + 1 := Array.size_push _

@[simp] theorem size_define (name : String) (v : Value) : (h.define s name v).size = h.size :=
  Array.size_modify

variable {h s}

theorem getElem?_eq_none (hs : h.size ≤ s) : h.scopes[s]? = none := Array.getElem?_eq_none hs

theorem bindings_of_le (hs : h.size ≤ s) : h.bindings s = [] := by
  rw [bindings, getElem?_eq_none hs]

theorem parent?_of_le (hs : h.size ≤ s) : h.parent? s = none := by
  rw [parent?, getElem?_eq_none hs]
  rfl

/-- Only a scope that there is binds anything. -/
theorem lt_of_mem_bindings {p : String × Value} (hp : p ∈ h.bindings s) : s < h.size := by
  by_cases hs : s < h.size
  · exact hs
  · rw [bindings_of_le (Nat.le_of_not_lt hs)] at hp
    simp at hp

theorem binds_iff (name : String) : h.binds name s = true ↔ name ∈ Bindings.names (h.bindings s) :=
  Bindings.get?_isSome ..

theorem lt_of_binds {name : String} (hb : h.binds name s = true) : s < h.size := by
  rw [binds_iff, Bindings.names, List.mem_map] at hb
  obtain ⟨p, hp, -⟩ := hb
  exact lt_of_mem_bindings hp

end

/-! ### Making a scope -/

section

variable (h : Heap) (parent : Option ScopeId) (boundary : Bool) (s : ScopeId)

theorem getElem?_alloc :
    (h.alloc parent boundary).2.scopes[s]?
      = if s = h.size then some ⟨[], parent, boundary⟩ else h.scopes[s]? :=
  Array.getElem?_push

theorem bindings_alloc : (h.alloc parent boundary).2.bindings s = h.bindings s := by
  rw [bindings, getElem?_alloc]
  by_cases hs : s = h.size
  · rw [if_pos hs, bindings_of_le (Nat.le_of_eq hs.symm)]
  · rw [if_neg hs]
    rfl

theorem parent?_alloc :
    (h.alloc parent boundary).2.parent? s = if s = h.size then parent else h.parent? s := by
  rw [parent?, getElem?_alloc]
  by_cases hs : s = h.size
  · rw [if_pos hs, if_pos hs]
    rfl
  · rw [if_neg hs, if_neg hs]
    rfl

theorem boundary?_alloc {s : ScopeId} (hs : s < h.size) :
    (h.alloc parent boundary).2.boundary? s = h.boundary? s := by
  rw [boundary?, getElem?_alloc, if_neg (Nat.ne_of_lt hs)]
  rfl

end

/-! ### Binding a name -/

section

variable (h : Heap) (s t : ScopeId) (name : String) (v : Value)

theorem getElem?_define :
    (h.define s name v).scopes[t]?
      = if s = t then
          h.scopes[t]?.map fun scope => { scope with bindings := Bindings.put scope.bindings name v }
        else h.scopes[t]? :=
  Array.getElem?_modify

theorem parent?_define : (h.define s name v).parent? t = h.parent? t := by
  rw [parent?, parent?, getElem?_define]
  split
  · cases h.scopes[t]? <;> rfl
  · rfl

theorem boundary?_define : (h.define s name v).boundary? t = h.boundary? t := by
  rw [boundary?, boundary?, getElem?_define]
  split
  · cases h.scopes[t]? <;> rfl
  · rfl

variable {s t}

theorem bindings_define_self (hs : s < h.size) :
    (h.define s name v).bindings s = Bindings.put (h.bindings s) name v := by
  have hget : h.scopes[s]? = some h.scopes[s] := Array.getElem?_eq_getElem hs
  rw [bindings, bindings, getElem?_define, if_pos rfl, hget]
  rfl

theorem bindings_define_of_ne (hst : s ≠ t) : (h.define s name v).bindings t = h.bindings t := by
  rw [bindings, bindings, getElem?_define, if_neg hst]

end

/-! ### Chains -/

/-- Every scope stands inside a scope made before it. -/
def Nested (h : Heap) : Prop := ∀ s p : Nat, h.parent? s = some p → p < s

section

variable {h : Heap}

theorem Nested.empty : Heap.empty.Nested := by
  intro s p hp
  rw [parent?_of_le (Nat.zero_le s)] at hp
  simp at hp

theorem Nested.alloc (hn : h.Nested) {parent : Option ScopeId} (boundary : Bool)
    (hparent : ∀ p, parent = some p → p < h.size) : (h.alloc parent boundary).2.Nested := by
  intro s p hp
  rw [parent?_alloc] at hp
  split at hp
  · next hs =>
    rw [hs]
    exact hparent p hp
  · exact hn s p hp

theorem Nested.define (hn : h.Nested) (s : ScopeId) (name : String) (v : Value) :
    (h.define s name v).Nested := by
  intro t p hp
  rw [parent?_define] at hp
  exact hn t p hp

/-- All bounds beyond the number of its first scope give the same chain. -/
theorem chainUpTo_congr (hn : h.Nested) {n m s : Nat} (hs : s < n) (hm : s < m) :
    h.chainUpTo n s = h.chainUpTo m s := by
  induction n generalizing m s with
  | zero => exact absurd hs (Nat.not_lt_zero _)
  | succ n ih =>
    obtain ⟨m, rfl⟩ : ∃ m', m = m' + 1 := ⟨m - 1, by omega⟩
    rw [chainUpTo, chainUpTo]
    cases hp : h.parent? s with
    | none => rfl
    | some p =>
      have hps := hn s p hp
      show s :: h.chainUpTo n p = s :: h.chainUpTo m p
      rw [ih (m := m) (by omega) (by omega)]

/-- **A chain is a scope and the chain of the scope around it.** -/
theorem chain_eq (hn : h.Nested) (s : ScopeId) :
    h.chain s = s :: (match h.parent? s with
      | some p => h.chain p
      | none => []) := by
  rw [chain, chainUpTo]
  cases hp : h.parent? s with
  | none => rfl
  | some p =>
    show s :: h.chainUpTo s p = s :: h.chain p
    rw [chain, chainUpTo_congr hn (hn s p hp) (Nat.lt_succ_self p)]

/-- **A chain ends** at a scope that stands in no other. -/
theorem chain_ends (hn : h.Nested) (s : Nat) :
    ∃ outermost, (h.chain s).getLast? = some outermost ∧ h.parent? outermost = none := by
  induction s using Nat.strongRecOn with
  | ind s ih =>
    rw [chain_eq hn s]
    cases hp : h.parent? s with
    | none => exact ⟨s, rfl, hp⟩
    | some p =>
      obtain ⟨outermost, hlast, hnone⟩ := ih p (hn s p hp)
      refine ⟨outermost, ?_, hnone⟩
      show (s :: h.chain p).getLast? = some outermost
      rw [chain_eq hn p] at hlast ⊢
      rw [List.getLast?_cons_cons, hlast]

/-- Only scopes that there are have a name in a chain. -/
theorem owner?_binds {s o : ScopeId} {name : String} (ho : h.owner? s name = some o) :
    h.binds name o = true ∧ o ∈ h.chain s :=
  ⟨List.find?_some ho, List.mem_of_find?_eq_some ho⟩

theorem lookup?_isSome (s : ScopeId) (name : String) :
    (h.lookup? s name).isSome = (h.owner? s name).isSome := by
  rw [lookup?]
  cases ho : h.owner? s name with
  | none => rfl
  | some o => exact (owner?_binds ho).1

/-- What a name stands for is bound in some scope. -/
theorem mem_of_lookup? {s : ScopeId} {name : String} {v : Value} (hv : h.lookup? s name = some v) :
    ∃ o, (name, v) ∈ h.bindings o := by
  rw [lookup?, Option.bind_eq_some_iff] at hv
  obtain ⟨o, -, hget⟩ := hv
  exact ⟨o, Bindings.mem_of_get? hget⟩

end

/-! ### Growth -/

/-- What can have become of a heap, when new names appear in the scopes of `added` alone. -/
structure Grows (added : ScopeId → Prop) (h h' : Heap) : Prop where
  size : h.size ≤ h'.size
  parent : ∀ s, s < h.size → h'.parent? s = h.parent? s
  boundary : ∀ s, s < h.size → h'.boundary? s = h.boundary? s
  names : ∀ s, s < h.size → Bindings.names (h.bindings s) <+: Bindings.names (h'.bindings s)
  same : ∀ s, s < h.size → ¬ added s →
    Bindings.names (h'.bindings s) = Bindings.names (h.bindings s)

namespace Grows

variable {added : ScopeId → Prop} {h h' h'' : Heap}

theorem refl (added : ScopeId → Prop) (h : Heap) : Grows added h h where
  size := Nat.le_refl _
  parent := fun _ _ => rfl
  boundary := fun _ _ => rfl
  names := fun _ _ => List.prefix_rfl
  same := fun _ _ _ => rfl

theorem trans (hg : Grows added h h') (hg' : Grows added h' h'') : Grows added h h'' where
  size := Nat.le_trans hg.size hg'.size
  parent := fun s hs => by rw [hg'.parent s (Nat.lt_of_lt_of_le hs hg.size), hg.parent s hs]
  boundary := fun s hs => by rw [hg'.boundary s (Nat.lt_of_lt_of_le hs hg.size), hg.boundary s hs]
  names := fun s hs => (hg.names s hs).trans (hg'.names s (Nat.lt_of_lt_of_le hs hg.size))
  same := fun s hs ha => by rw [hg'.same s (Nat.lt_of_lt_of_le hs hg.size) ha, hg.same s hs ha]

/-- A new scope has no names yet. -/
theorem alloc (added : ScopeId → Prop) (h : Heap) (parent : Option ScopeId) (boundary : Bool) :
    Grows added h (h.alloc parent boundary).2 where
  size := by simp
  parent := fun s hs => by rw [parent?_alloc, if_neg (Nat.ne_of_lt hs)]
  boundary := fun s hs => boundary?_alloc h parent boundary hs
  names := fun s _ => by simp [bindings_alloc]
  same := fun s _ _ => by rw [bindings_alloc]

/-- Binding adds a name to the one scope at most, and none where the name was bound. -/
theorem define (h : Heap) {s : ScopeId} {name : String} (v : Value)
    (hs : added s ∨ h.binds name s = true) : Grows added h (h.define s name v) where
  size := by simp
  parent := fun t _ => parent?_define h s t name v
  boundary := fun t _ => boundary?_define h s t name v
  names := by
    intro t ht
    by_cases hst : s = t
    · subst hst
      rw [bindings_define_self h name v ht]
      exact Bindings.names_isPrefix_put ..
    · simp [bindings_define_of_ne h name v hst]
  same := by
    intro t ht hadded
    by_cases hst : s = t
    · subst hst
      rw [bindings_define_self h name v ht]
      rcases hs with hs | hs
      · exact absurd hs hadded
      · exact Bindings.names_put_of_mem v ((binds_iff name).1 hs)
    · rw [bindings_define_of_ne h name v hst]

theorem mono {more : ScopeId → Prop} (hg : Grows added h h') (hmore : ∀ s, added s → more s) :
    Grows more h h' where
  size := hg.size
  parent := hg.parent
  boundary := hg.boundary
  names := hg.names
  same := fun s hs hn => hg.same s hs fun ha => hn (hmore s ha)

/-! ### What can be seen -/

theorem binds (hg : Grows added h h') {name : String} {s : ScopeId} (hb : h.binds name s = true) :
    h'.binds name s = true := by
  have hs := lt_of_binds hb
  rw [binds_iff] at hb ⊢
  exact (hg.names s hs).subset hb

theorem chain (hg : Grows added h h') (hn : h.Nested) (hn' : h'.Nested) {s : ScopeId}
    (hs : s < h.size) : h'.chain s = h.chain s := by
  induction s using Nat.strongRecOn with
  | ind s ih =>
    rw [chain_eq hn, chain_eq hn', hg.parent s hs]
    cases hp : h.parent? s with
    | none => rfl
    | some p =>
      have hps := hn s p hp
      show s :: h'.chain p = s :: h.chain p
      rw [ih p hps (Nat.lt_trans hps hs)]

/-- **A name that can be seen from a scope can be seen from it ever after.** -/
theorem lookup?_isSome (hg : Grows added h h') (hn : h.Nested) (hn' : h'.Nested) {s : ScopeId}
    {name : String} (hseen : (h.lookup? s name).isSome = true) :
    (h'.lookup? s name).isSome = true := by
  rw [Heap.lookup?_isSome, owner?, List.find?_isSome] at hseen ⊢
  obtain ⟨o, ho, hb⟩ := hseen
  have hs : s < h.size := by
    by_cases hs : s < h.size
    · exact hs
    · -- a scope that there is not is alone in its chain and binds nothing
      have hle := Nat.le_of_not_lt hs
      rw [chain_eq hn, parent?_of_le hle, List.mem_singleton] at ho
      subst ho
      exact lt_of_binds hb
  rw [hg.chain hn hn' hs]
  exact ⟨o, ho, hg.binds hb⟩

end Grows

end Heap

end Klex
