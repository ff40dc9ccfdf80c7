import Klex.Proofs.Machine.Policy
import Klex.Proofs.Value.Relocation

/-!
# One heap as the mirror of another

Two runs of the same text are compared through the scopes that they can see.

* **`Value.Inside`** — the functions in a value capture scopes of a given set, and its natives are
  builtins.
* **`Heap.Mirrors`** — of the scopes of the set, the second heap shows the first, up to offsets; and
  **nothing leads out of the set**, neither the way outward nor a captured scope.  Scopes that are still
  to be made belong to it.
* **`Heap.Mirrors.lookup?`**, **`Heap.Mirrors.visibleNames`** — what can be seen from a scope of the set
  is the same in both heaps.
* **`Heap.Mirrors.alloc`**, **`Heap.Mirrors.define`**, **`Heap.Mirrors.assign`** — the operations on
  scopes keep the second heap the mirror of the first, and touch no scope outside the set
  (`Heap.Spares`).
-/

namespace Klex

/-! ### Values -/

/-- The value holds a function that captures the scope. -/
def Value.Captures (v : Value) (t : Nat) : Prop :=
  ∃ id params body, .closure id params body t ∈ v.parts

/-- The value leads to scopes of the set only, and to no natives but builtins. -/
structure Value.Inside (R : Nat → Prop) (v : Value) : Prop where
  scope : ∀ t, v.Captures t → R t
  code : v.UsesOnly Native.IsBuiltin

namespace Value

variable {R : Nat → Prop}

/-- In a machine whose natives are builtins, a value leads to the scopes that it captures. -/
theorem Fits.inside {P : Policy} {v : Value} {k : Nat} (hv : v.Fits P k)
    (hP : ∀ code, P.native code → code.IsBuiltin) (hR : ∀ t, v.Captures t → R t) : v.Inside R where
  scope := hR
  code id name discards code bound h := hP code (hv.usesOnly id name discards code bound h)

theorem ofLiteral_inside (l : Literal) : (ofLiteral l).Inside R := by
  constructor <;> cases l <;> simp [ofLiteral, Captures, UsesOnly, parts]

theorem null_inside : null.Inside R := ofLiteral_inside .null

theorem bool_inside (b : Bool) : (bool b).Inside R := ofLiteral_inside (.bool b)

theorem closure_inside {id : Nat} {params : List String} {body : Stmt} {s : Nat} (hs : R s) :
    (closure id params body s).Inside R := by
  constructor
  · rintro t ⟨id', params', body', h⟩
    simp only [parts, List.mem_singleton, closure.injEq] at h
    rw [h.2.2.2]
    exact hs
  · simp [UsesOnly, parts]

theorem Inside.home {id : Nat} {params : List String} {body : Stmt} {s : Nat}
    (h : (closure id params body s).Inside R) : R s :=
  h.scope s ⟨id, params, body, by simp [parts]⟩

theorem Inside.isBuiltin {id : Nat} {name : String} {discards : Bool} {code : Native}
    {bound : List Value} (h : (native id name discards code bound).Inside R) : code.IsBuiltin :=
  h.code id name discards code bound (by simp [parts])

theorem Inside.present? {v w : Value} (h : v.Inside R) (hw : v.present? = some w) : w.Inside R := by
  cases v <;> simp only [Value.present?, Option.some.injEq, reduceCtorEq] at hw <;> exact hw ▸ h

theorem Inside.orNull {v : Value} (h : v.Inside R) : v.orNull.Inside R := by
  cases v <;> first | exact h | exact null_inside

end Value

/-! ### Bindings -/

namespace Bindings

/-- The bindings with other offsets in the functions. -/
def relocate (ρ : Relocation) (b : Bindings) : Bindings := b.map fun p => (p.1, p.2.relocate ρ)

variable (ρ : Relocation) (b : Bindings) (name : String)

theorem names_relocate : names (relocate ρ b) = names b := by
  simp [names, relocate, Function.comp_def]

theorem get?_relocate : get? (relocate ρ b) name = (get? b name).map (Value.relocate ρ) := by
  induction b with
  | nil => rfl
  | cons p rest ih =>
    rw [relocate, get?] at ih
    rw [relocate, List.map_cons, get?, get?, List.lookup_cons, List.lookup_cons]
    cases hname : name == p.1 with
    | true => rfl
    | false => exact ih

theorem put_relocate (v : Value) :
    put (relocate ρ b) name (v.relocate ρ) = relocate ρ (put b name v) := by
  induction b with
  | nil => rfl
  | cons p rest ih =>
    simp only [relocate, List.map_cons, put] at ih ⊢
    by_cases hk : p.1 = name
    · rw [if_pos hk, if_pos hk, List.map_cons]
    · rw [if_neg hk, if_neg hk, List.map_cons, ih]

theorem relocate_keep : relocate .keep b = b := by
  simp [relocate, Value.relocate_keep]

end Bindings

/-- The scope with other offsets in the functions that it binds. -/
def Scope.relocate (ρ : Relocation) (s : Scope) : Scope :=
  { s with bindings := Bindings.relocate ρ s.bindings }

theorem Scope.map_relocate_keep (s? : Option Scope) : s?.map (Scope.relocate .keep) = s? := by
  cases s? with
  | none => rfl
  | some s => rw [Option.map_some, Scope.relocate, Bindings.relocate_keep]

namespace Heap

/-! ### Scopes that are left alone -/

/-- Scopes outside the set are as they were. -/
def Spares (R : Nat → Prop) (h h' : Heap) : Prop := ∀ t, ¬ R t → h'.scopes[t]? = h.scopes[t]?

section

variable {R : Nat → Prop} {h h' h'' : Heap}

theorem Spares.refl (R : Nat → Prop) (h : Heap) : Spares R h h := fun _ _ => rfl

theorem Spares.trans (hh : Spares R h h') (hh' : Spares R h' h'') : Spares R h h'' :=
  fun t ht => (hh' t ht).trans (hh t ht)

theorem Spares.alloc (hnew : R h.size) (parent : Option ScopeId) (boundary : Bool) :
    Spares R h (h.alloc parent boundary).2 := by
  intro t ht
  have hne : t ≠ h.size := fun heq => ht (heq ▸ hnew)
  rw [getElem?_alloc, if_neg hne]

theorem Spares.define {s : Nat} (hs : R s) (name : String) (v : Value) :
    Spares R h (h.define s name v) := by
  intro t ht
  have hne : s ≠ t := fun heq => ht (heq ▸ hs)
  rw [getElem?_define, if_neg hne]

theorem Spares.defineAll {s : Nat} (hs : R s) (pairs : List (String × Value)) :
    Spares R h (h.defineAll s pairs) := by
  induction pairs generalizing h with
  | nil => exact .refl R h
  | cons p pairs ih => exact (Spares.define hs p.1 p.2).trans ih

theorem Spares.assign {s : Nat} {name : String} (hs : R s)
    (howner : ∀ o, h.owner? s name = some o → R o) (v : Value) :
    Spares R h (h.assign s name v) := by
  rw [Heap.assign]
  cases ho : h.owner? s name with
  | none => exact .define hs name v
  | some o => exact .define (howner o ho) name v

end

/-! ### Mirrors -/

/-- The second heap shows the scopes of the set as they are in the first, up to offsets, and nothing
leads out of the set. -/
structure Mirrors (ρ : Relocation) (R : Nat → Prop) (h h' : Heap) : Prop where
  size : h'.size = h.size
  scopes : ∀ t, R t → h'.scopes[t]? = h.scopes[t]?.map (Scope.relocate ρ)
  fresh : ∀ t, h.size ≤ t → R t
  parent : ∀ t p, R t → h.parent? t = some p → R p
  values : ∀ t, R t → ∀ p ∈ h.bindings t, p.2.Inside R

namespace Mirrors

variable {ρ : Relocation} {R : Nat → Prop} {h h' : Heap} (hh : Mirrors ρ R h h')

include hh

theorem bindings {t : Nat} (ht : R t) : h'.bindings t = Bindings.relocate ρ (h.bindings t) := by
  rw [Heap.bindings, Heap.bindings, hh.scopes t ht]
  cases h.scopes[t]? <;> rfl

theorem parent? {t : Nat} (ht : R t) : h'.parent? t = h.parent? t := by
  rw [Heap.parent?, Heap.parent?, hh.scopes t ht]
  cases h.scopes[t]? <;> rfl

theorem binds {t : Nat} (ht : R t) (name : String) : h'.binds name t = h.binds name t := by
  rw [Heap.binds, Heap.binds, hh.bindings ht, Bindings.get?_relocate, Option.isSome_map]

/-- The way outward stays in the set, and is the same in both heaps. -/
theorem chainUpTo (n : Nat) {s : Nat} (hs : R s) :
    h'.chainUpTo n s = h.chainUpTo n s ∧ ∀ t ∈ h.chainUpTo n s, R t := by
  induction n generalizing s with
  | zero => exact ⟨rfl, by simp [Heap.chainUpTo]⟩
  | succ n ih =>
    rw [Heap.chainUpTo, Heap.chainUpTo, hh.parent? hs]
    cases hp : h.parent? s with
    | none => exact ⟨rfl, by simpa using hs⟩
    | some p =>
      obtain ⟨hsame, hinside⟩ := ih (hh.parent s p hs hp)
      refine ⟨?_, List.forall_mem_cons.2 ⟨hs, hinside⟩⟩
      show s :: h'.chainUpTo n p = s :: h.chainUpTo n p
      rw [hsame]

theorem chain {s : Nat} (hs : R s) : h'.chain s = h.chain s := (hh.chainUpTo (s + 1) hs).1

theorem chain_inside {s t : Nat} (hs : R s) (ht : t ∈ h.chain s) : R t :=
  (hh.chainUpTo (s + 1) hs).2 t ht

theorem owner? {s : Nat} (hs : R s) (name : String) : h'.owner? s name = h.owner? s name := by
  rw [Heap.owner?, Heap.owner?, hh.chain hs]
  have hinside : ∀ t ∈ h.chain s, R t := fun t => hh.chain_inside hs
  revert hinside
  generalize h.chain s = row
  intro hinside
  induction row with
  | nil => rfl
  | cons t rest ih =>
    obtain ⟨ht, hrest⟩ := List.forall_mem_cons.1 hinside
    rw [List.find?_cons, List.find?_cons, hh.binds ht, ih hrest]

theorem owner_inside {s o : Nat} {name : String} (hs : R s) (ho : h.owner? s name = some o) :
    R o :=
  hh.chain_inside hs (owner?_binds ho).2

/-- **A name stands for the same value in both heaps**, up to offsets. -/
theorem lookup? {s : Nat} (hs : R s) (name : String) :
    h'.lookup? s name = (h.lookup? s name).map (Value.relocate ρ) := by
  rw [Heap.lookup?, Heap.lookup?, hh.owner? hs]
  cases ho : h.owner? s name with
  | none => rfl
  | some o =>
    show Bindings.get? (h'.bindings o) name = (Bindings.get? (h.bindings o) name).map _
    rw [hh.bindings (hh.owner_inside hs ho), Bindings.get?_relocate]

/-- What can be seen from a scope of the set leads nowhere else. -/
theorem lookup_inside {s : Nat} {name : String} {v : Value} (hs : R s)
    (hv : h.lookup? s name = some v) : v.Inside R := by
  rw [Heap.lookup?, Option.bind_eq_some_iff] at hv
  obtain ⟨o, ho, hget⟩ := hv
  exact hh.values o (hh.owner_inside hs ho) _ (Bindings.mem_of_get? hget)

/-- **The same names can be seen in both heaps.** -/
theorem visibleNames {s : Nat} (hs : R s) : h'.visibleNames s = h.visibleNames s := by
  rw [Heap.visibleNames, Heap.visibleNames, hh.chain hs]
  have hnames : ∀ t ∈ h.chain s,
      Bindings.names (h'.bindings t) = Bindings.names (h.bindings t) := by
    intro t ht
    rw [hh.bindings (hh.chain_inside hs ht), Bindings.names_relocate]
  rw [List.flatMap, List.flatMap, List.map_congr_left hnames]

/-! ### Operations on scopes -/

theorem alloc {parent : Option ScopeId} (hparent : ∀ p, parent = some p → R p) (boundary : Bool) :
    Mirrors ρ R (h.alloc parent boundary).2 (h'.alloc parent boundary).2 where
  size := by rw [size_alloc, size_alloc, hh.size]
  scopes t ht := by
    rw [getElem?_alloc, getElem?_alloc, hh.size]
    split
    · rfl
    · exact hh.scopes t ht
  fresh t ht := by
    rw [size_alloc] at ht
    exact hh.fresh t (by omega)
  parent t p ht hp := by
    rw [parent?_alloc] at hp
    split at hp
    · exact hparent p hp
    · exact hh.parent t p ht hp
  values t ht p hp := by
    rw [bindings_alloc] at hp
    exact hh.values t ht p hp

theorem define {s : Nat} {v : Value} (hv : v.Inside R) (name : String) :
    Mirrors ρ R (h.define s name v) (h'.define s name (v.relocate ρ)) where
  size := by rw [size_define, size_define, hh.size]
  scopes t ht := by
    rw [getElem?_define, getElem?_define, hh.scopes t ht]
    split
    · cases h.scopes[t]? with
      | none => rfl
      | some scope =>
        show some _ = some _
        simp only [Scope.relocate, Bindings.put_relocate]
    · rfl
  fresh t ht := by
    rw [size_define] at ht
    exact hh.fresh t ht
  parent t p ht hp := by
    rw [parent?_define] at hp
    exact hh.parent t p ht hp
  values t ht p hp := by
    by_cases hst : s = t
    · subst hst
      have hs : s < h.size := by
        have := lt_of_mem_bindings hp
        rwa [size_define] at this
      rw [bindings_define_self _ _ _ hs] at hp
      rcases Bindings.mem_put hp with hp | hp
      · exact hh.values s ht p hp
      · exact hp ▸ hv
    · rw [bindings_define_of_ne _ _ _ hst] at hp
      exact hh.values t ht p hp

theorem assign {s : Nat} {v : Value} (hs : R s) (hv : v.Inside R) (name : String) :
    Mirrors ρ R (h.assign s name v) (h'.assign s name (v.relocate ρ)) := by
  rw [Heap.assign, Heap.assign, hh.owner? hs]
  exact hh.define hv name

theorem defineAll {s : Nat} {pairs : List (String × Value)} (hpairs : ∀ p ∈ pairs, p.2.Inside R) :
    Mirrors ρ R (h.defineAll s pairs) (h'.defineAll s (Bindings.relocate ρ pairs)) := by
  induction pairs generalizing h h' with
  | nil => exact hh
  | cons p pairs ih =>
    obtain ⟨hp, hrest⟩ := List.forall_mem_cons.1 hpairs
    exact ih (hh.define hp p.1) hrest

end Mirrors

end Heap

end Klex
