import Klex.Host.Toolbox
import Klex.Proofs.Evaluator.Parts
import Klex.Proofs.Scope.Assignment
import Klex.Proofs.Text.Order
import Mathlib.Data.List.Basic

/-!
# The names that can be seen

The names are gathered outward along the chain, each at the first place where it turns up, while a
look-up walks the chain for one name.  Both come to the same.

* **`Heap.AheadIn`**, **`Heap.Ahead`** — the order of names by the scopes that own them.
* **`Heap.firsts_aheadIn`** — gathered along any row of scopes, the names are in that order.
* **`Heap.visibleNames_ahead`** — **the visible names come by the depth of their nearest scopes and then
  in the order of that scope.**
* **`Toolbox.names_printed`** — **each name that a look-up finds is there once, in that order;
  `printAvailableDebug` shows the same names sorted.**
-/

namespace Klex

namespace Heap

/-! ### The first places of a row -/

theorem mem_firsts {name : String} {row : List String} : name ∈ firsts row ↔ name ∈ row := by
  induction row with
  | nil => exact Iff.rfl
  | cons first rest ih =>
    rw [firsts, List.mem_cons, List.mem_cons, List.mem_filter, ih]
    by_cases hname : name = first <;> simp [hname]

theorem ne_of_mem_filter {first name : String} {row : List String}
    (h : name ∈ row.filter (· != first)) : first ≠ name := by
  rintro rfl
  simpa using (List.mem_filter.1 h).2

theorem firsts_nodup (row : List String) : (firsts row).Nodup := by
  induction row with
  | nil => exact .nil
  | cons first rest ih =>
    exact List.nodup_cons.2 ⟨fun hmem => ne_of_mem_filter hmem rfl, ih.filter _⟩

/-- The first places of a row that goes on are those of its front part, and further on the first places
of names that are new. -/
theorem firsts_append (front rest : List String) :
    firsts (front ++ rest) = firsts front ++ (firsts rest).filter (· ∉ front) := by
  induction front with
  | nil => simp only [List.nil_append, firsts, List.not_mem_nil, not_false_eq_true, decide_true,
      List.filter_true]
  | cons first front ih =>
    rw [List.cons_append, firsts, firsts, ih, List.filter_append, List.filter_filter, List.cons_append]
    congr 2
    refine List.filter_congr fun name _ => ?_
    by_cases hname : name = first <;> simp [hname]

/-- First places keep the order of the row. -/
theorem firsts_ascending (row : List String) :
    (firsts row).Pairwise fun a b => row.idxOf a < row.idxOf b := by
  induction row with
  | nil => exact .nil
  | cons first rest ih =>
    refine List.pairwise_cons.2 ⟨fun b hb => ?_, ?_⟩
    · rw [List.idxOf_cons_self, List.idxOf_cons_ne _ (ne_of_mem_filter hb)]
      exact Nat.succ_pos _
    · refine (ih.filter _).imp_of_mem fun {a b} ha hb hab => ?_
      rw [List.idxOf_cons_ne _ (ne_of_mem_filter ha), List.idxOf_cons_ne _ (ne_of_mem_filter hb)]
      exact Nat.succ_lt_succ hab

/-! ### The order of names -/

section

variable {h : Heap} {s : ScopeId} {name : String}

/-- In a row of scopes, the first that binds `a` comes before the first that binds `b`, or it is the same
and binds `a` earlier. -/
def AheadIn (h : Heap) (row : List ScopeId) (a b : String) : Prop :=
  ∃ o p, row.find? (h.binds a) = some o ∧ row.find? (h.binds b) = some p ∧
    (row.idxOf o < row.idxOf p ∨
      o = p ∧ (Bindings.names (h.bindings o)).idxOf a < (Bindings.names (h.bindings o)).idxOf b)

/-- What the search finds further on in a row stands one place further from its beginning. -/
theorem find?_beyond {row : List ScopeId} {t o : ScopeId} {a : String} (ht : h.binds a t = false)
    (ho : row.find? (h.binds a) = some o) :
    (t :: row).find? (h.binds a) = some o ∧ (t :: row).idxOf o = row.idxOf o + 1 := by
  have hto : t ≠ o := by
    rintro rfl
    exact absurd (List.find?_some ho) (by simp [ht])
  exact ⟨by rw [List.find?_cons, ht, ho], List.idxOf_cons_ne row hto⟩

/-- The names along a row of scopes come by their owners. -/
theorem firsts_aheadIn (h : Heap) (row : List ScopeId) :
    (firsts (row.flatMap fun o => Bindings.names (h.bindings o))).Pairwise (h.AheadIn row) := by
  induction row with
  | nil => exact .nil
  | cons t row ih =>
    have hbinds {a : String} : a ∈ Bindings.names (h.bindings t) ↔ h.binds a t = true :=
      (binds_iff a).symm
    have hunbound {a : String} {names : List String}
        (ha : a ∈ names.filter (· ∉ Bindings.names (h.bindings t))) : h.binds a t = false := by
      simpa [hbinds] using (List.mem_filter.1 ha).2
    rw [List.flatMap_cons, firsts_append]
    refine List.pairwise_append.2 ⟨?_, ?_, ?_⟩
    · -- two names of the first scope
      refine (firsts_ascending _).imp_of_mem fun {a b} ha hb hab => ?_
      have ha := hbinds.1 (mem_firsts.1 ha)
      have hb := hbinds.1 (mem_firsts.1 hb)
      exact ⟨t, t, by rw [List.find?_cons, ha], by rw [List.find?_cons, hb], .inr ⟨rfl, hab⟩⟩
    · -- two names of scopes further on
      refine (ih.filter _).imp_of_mem fun {a b} ha hb hab => ?_
      obtain ⟨o, p, ho, hp, hop⟩ := hab
      obtain ⟨ho, hio⟩ := find?_beyond (hunbound ha) ho
      obtain ⟨hp, hip⟩ := find?_beyond (hunbound hb) hp
      exact ⟨o, p, ho, hp, hop.imp_left fun hlt => by rw [hio, hip]; exact Nat.succ_lt_succ hlt⟩
    · -- a name of the first scope and one of a scope further on
      intro a ha b hb
      have ha := hbinds.1 (mem_firsts.1 ha)
      have hmem : b ∈ row.flatMap fun o => Bindings.names (h.bindings o) :=
        mem_firsts.1 (List.mem_filter.1 hb).1
      obtain ⟨p, hp⟩ : ∃ p, row.find? (h.binds b) = some p := by
        obtain ⟨o, ho, hbo⟩ := List.mem_flatMap.1 hmem
        exact Option.isSome_iff_exists.1 (List.find?_isSome.2 ⟨o, ho, (binds_iff b).2 hbo⟩)
      obtain ⟨hp, hip⟩ := find?_beyond (hunbound hb) hp
      refine ⟨t, p, by rw [List.find?_cons, ha], hp, .inl ?_⟩
      rw [List.idxOf_cons_self, hip]
      exact Nat.succ_pos _

/-- The nearest scope of `a` is nearer than that of `b`, or it is the same and bound `a` first. -/
def Ahead (h : Heap) (s : ScopeId) (a b : String) : Prop :=
  ∃ o p, h.Nearest a s o ∧ h.Nearest b s p ∧
    ((h.chain s).idxOf o < (h.chain s).idxOf p ∨
      o = p ∧ (Bindings.names (h.bindings o)).idxOf a < (Bindings.names (h.bindings o)).idxOf b)

/-- **The visible names come by the depth of their owners**, and those of one owner in its order. -/
theorem visibleNames_ahead (hn : h.Nested) (s : ScopeId) :
    (h.visibleNames s).Pairwise (h.Ahead s) := by
  refine (firsts_aheadIn h (h.chain s)).imp fun {a b} hab => ?_
  obtain ⟨o, p, ho, hp, hop⟩ := hab
  exact ⟨o, p, (nearest_iff hn).2 ho, (nearest_iff hn).2 hp, hop⟩

/-- The names that can be seen are those that the search finds an owner for. -/
theorem mem_visibleNames : name ∈ h.visibleNames s ↔ (h.lookup? s name).isSome = true := by
  rw [visibleNames, mem_firsts, List.mem_flatMap, lookup?_isSome, owner?, List.find?_isSome]
  simp only [binds_iff]

theorem lookup_eq_ok {pos : Option Nat} :
    (∃ v, h.lookup s name pos = .ok v) ↔ (h.lookup? s name).isSome = true := by
  rw [lookup]
  cases h.lookup? s name <;> simp

end

end Heap

/-! ### Showing the names -/

namespace Toolbox

variable {m : Machine} {s : ScopeId}

/-- The machine after the names were shown. -/
def shown (m : Machine) (s : ScopeId) : Machine :=
  { m with effects := m.effects.push ⟨"debug", ", ".intercalate (sortedNames m.heap s)⟩ }

/-- A call of the native shows the names that can be seen from the calling scope, and nothing else
happens. -/
theorem run_printNames (depth id : Nat) (name : String) (discards : Bool) (bound args : List Value)
    (site : Option Nat) :
    (Evaluator.call toolbox (depth + 1) (.native id name discards .printNames bound) args s site).run m
      = .ok .null (shown m s) := by
  cases discards <;> rfl

/-- The same for a call in a script, which is noted among the calls. -/
theorem run_printNames_call {id : Nat} {name callee : String} {discards : Bool} {bound : List Value}
    (hv : m.heap.lookup? s callee = some (.native id name discards .printNames bound))
    (depth pos start : Nat) :
    (Evaluator.evaluate toolbox (depth + 2) (.call pos (.name start callee) []) s).run m
      = .ok .null { shown m s with
          current := some start
          trace := ⟨callee, .native id name discards .printNames bound, [], pos⟩ :: m.trace } := by
  let native : Value := .native id name discards .printNames bound
  let entered : Machine := { m with current := some start }
  let called : Machine :=
    { entered with
      frames := m.frames ++ [⟨callee, native, [], pos⟩]
      trace := ⟨callee, native, [], pos⟩ :: m.trace }
  have henter : (Exec.enter (some pos)).run m = .ok () { m with current := some pos } := rfl
  have hname : (Evaluator.evaluate toolbox (depth + 1) (.name start callee) s).run
      { m with current := some pos } = .ok native entered := by
    show (Exec.ofStop ((m.heap.lookup s callee (some start)).mapError .failure)).run entered = _
    rw [Heap.lookup, hv]
    rfl
  have hargs : (Evaluator.each (fun arg => Evaluator.evaluate toolbox (depth + 1) arg s) []).run entered
      = .ok [] entered := rfl
  have hpush : (Exec.push ⟨callee, native, [], pos⟩).run entered = .ok () called := rfl
  have hcall : (Evaluator.call toolbox (depth + 1) native [] s (some pos)).run called
      = .ok .null (shown called s) := run_printNames depth id name discards bound [] (some pos)
  have hpop : called.frames.dropLast = m.frames := List.dropLast_concat
  rw [Evaluator.evaluate]
  refine (Exec.run_bind_ok henter).trans ((Exec.run_bind_ok hname).trans ?_)
  refine (Exec.run_bind_ok hargs).trans ((Exec.run_bind_ok hpush).trans ?_)
  refine (Exec.run_bind_ok hcall).trans ?_
  show EStateM.Result.ok Value.null { shown called s with frames := called.frames.dropLast } = _
  rw [hpop]
  rfl

/-- **The names that are shown are those that can be seen.**  They can be looked up, each of them is there
once, and they are gathered by the depth of the nearest scope that binds them and then in the order in
which that scope bound them.  What the native shows is a message of the same names in strictly ascending
order of their code points, whether the host calls it or a script does. -/
theorem names_printed (hn : m.heap.Nested) (s : ScopeId) :
    (m.heap.visibleNames s).Nodup ∧
      (∀ name pos, name ∈ m.heap.visibleNames s ↔ ∃ v, m.heap.lookup s name pos = .ok v) ∧
      (m.heap.visibleNames s).Pairwise (m.heap.Ahead s) ∧
      ((sortedNames m.heap s).Perm (m.heap.visibleNames s) ∧
        (sortedNames m.heap s).Pairwise fun a b => Text.codePoints a < Text.codePoints b) ∧
      (∀ depth id name discards bound args site,
        (Evaluator.call toolbox (depth + 1) (.native id name discards .printNames bound) args s site).run m
          = .ok .null
              { m with effects := m.effects.push ⟨"debug", ", ".intercalate (sortedNames m.heap s)⟩ }) ∧
      ∀ depth id name callee discards bound pos start,
        m.heap.lookup? s callee = some (.native id name discards .printNames bound) →
          ∃ m', (Evaluator.evaluate toolbox (depth + 2) (.call pos (.name start callee) []) s).run m
              = .ok .null m' ∧
            m'.effects = m.effects.push ⟨"debug", ", ".intercalate (sortedNames m.heap s)⟩ ∧
            m'.heap = m.heap := by
  have hnodup : (m.heap.visibleNames s).Nodup := Heap.firsts_nodup _
  refine ⟨hnodup, fun name pos => ?_, Heap.visibleNames_ahead hn s,
    ⟨Text.sortOn_perm _, Text.sortOn_ascending hnodup⟩, ?_, ?_⟩
  · rw [Heap.mem_visibleNames, Heap.lookup_eq_ok]
  · intro depth id name discards bound args site
    exact run_printNames depth id name discards bound args site
  · intro depth id name callee discards bound pos start hv
    exact ⟨_, run_printNames_call hv depth pos start, rfl, rfl⟩

/-- The builtin in the outermost of three scopes, of which two bind `x`. -/
def listing : Machine :=
  { Machine.empty with
    heap := Heap.shadowed.define 0 "printAvailableDebug"
      (.native 0 "printAvailableDebug" true .printNames []) }

theorem names_printed_listing :
    listing.heap.Nested ∧ listing.heap.visibleNames 2 = ["x", "y", "printAvailableDebug"] ∧
      ∃ m', (Evaluator.evaluate toolbox 2 (.call 0 (.name 0 "printAvailableDebug") []) 2).run listing
          = .ok .null m' ∧
        m'.effects = #[⟨"debug", "printAvailableDebug, x, y"⟩] := by
  have hn : listing.heap.Nested := Heap.shadowed_nested.define 0 _ _
  obtain ⟨-, -, -, -, -, hcall⟩ := names_printed hn 2
  obtain ⟨m', hm', heffects, -⟩ := hcall 0 0 "printAvailableDebug" "printAvailableDebug" true [] 0 0 rfl
  exact ⟨hn, rfl, m', hm', heffects.trans (by decide)⟩

end Toolbox

end Klex
