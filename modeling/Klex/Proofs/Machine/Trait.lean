import Klex.Machine
import Klex.Proofs.Scope.Growth

/-!
# What is true of every value in a machine

Some invariants speak of single values only, wherever they stand: which natives there are, or that the
mark of absence is not among them.

* **`Value.Trait`** — a property that literals and functions of the language have.
* **`Machine.All`** — every bound value and every argument of a call has the property.
* **`Exec.Keeps`** — **a computation keeps it so**, whether it ends or stops early, and gives a result with
  a given property.  One rule for each way of putting computations together, and one for each
  operation of the machine.
-/

namespace Klex

/-- A property that evaluation itself cannot leave: literals and functions have it. -/
structure Value.Trait (good : Value → Prop) : Prop where
  literal : ∀ l, good (.ofLiteral l)
  closure : ∀ id params body s, good (.closure id params body s)

variable {good : Value → Prop}

theorem Value.Trait.null (hgood : Value.Trait good) : good .null := hgood.literal .null

theorem Value.Trait.bool (hgood : Value.Trait good) (b : Bool) : good (.bool b) :=
  hgood.literal (.bool b)

/-! ### Scopes -/

namespace Heap

/-- Every bound value has the property. -/
def All (good : Value → Prop) (h : Heap) : Prop := ∀ s, ∀ p ∈ h.bindings s, good p.2

variable {h : Heap}

theorem All.alloc (hh : h.All good) (parent : Option ScopeId) (boundary : Bool) :
    (h.alloc parent boundary).2.All good := by
  intro s p hp
  rw [bindings_alloc] at hp
  exact hh s p hp

theorem All.define (hh : h.All good) (s : Nat) (name : String) {v : Value} (hv : good v) :
    (h.define s name v).All good := by
  intro t p hp
  by_cases hst : s = t
  · subst hst
    have hs : s < h.size := by
      have hlt := lt_of_mem_bindings hp
      rwa [size_define] at hlt
    rw [bindings_define_self _ _ _ hs] at hp
    rcases Bindings.mem_put hp with hp | hp
    · exact hh s p hp
    · rw [hp]
      exact hv
  · rw [bindings_define_of_ne _ _ _ hst] at hp
    exact hh t p hp

theorem All.defineAll (hh : h.All good) (s : Nat) {pairs : List (String × Value)}
    (hpairs : ∀ p ∈ pairs, good p.2) : (h.defineAll s pairs).All good := by
  induction pairs generalizing h with
  | nil => exact hh
  | cons p pairs ih =>
    obtain ⟨hp, hrest⟩ := List.forall_mem_cons.1 hpairs
    exact ih (hh.define s p.1 hp) hrest

theorem All.lookup? (hh : h.All good) {s : ScopeId} {name : String} {v : Value}
    (hv : h.lookup? s name = some v) : good v := by
  obtain ⟨o, hbound⟩ := mem_of_lookup? hv
  exact hh o _ hbound

end Heap

/-- Every bound value and every argument of a call has the property. -/
structure Machine.All (good : Value → Prop) (m : Machine) : Prop where
  bound : m.heap.All good
  passed : ∀ f ∈ m.frames ++ m.trace, ∀ v ∈ f.args, good v

/-! ### Computations -/

section

variable {α : Type} {x : Exec α} {handle : Stop → Exec α} {m m' : Machine}

theorem Exec.run_tryCatch_ok {a : α} (h : x.run m = .ok a m') :
    (tryCatch x handle : Exec α).run m = .ok a m' := by
  have hx : x m = .ok a m' := h
  show EStateM.tryCatch x handle m = .ok a m'
  delta EStateM.tryCatch
  simp only [hx]

theorem Exec.run_tryCatch_error {stop : Stop} (h : x.run m = .error stop m') :
    (tryCatch x handle : Exec α).run m = (handle stop).run m' := by
  have hx : x m = .error stop m' := h
  show EStateM.tryCatch x handle m = (handle stop).run m'
  delta EStateM.tryCatch
  simp only [hx]
  rfl

end

/-- From a machine whose values have the property, the computation leads to such a machine. -/
def Exec.Keeps {α : Type} (good : Value → Prop) (x : Exec α) (Q : α → Prop) : Prop :=
  ∀ m : Machine, m.All good → match x.run m with
    | .ok a m' => m'.All good ∧ Q a
    | .error _ m' => m'.All good

namespace Exec.Keeps

variable {α β : Type} {x : Exec α} {f : α → Exec β} {Q Q' : α → Prop} {R : β → Prop} {m m' : Machine}

theorem ok (h : Keeps good x Q) (hm : m.All good) {a : α} (hx : x.run m = .ok a m') :
    m'.All good ∧ Q a := by
  have hends := h m hm
  rw [hx] at hends
  exact hends

theorem error (h : Keeps good x Q) (hm : m.All good) {stop : Stop} (hx : x.run m = .error stop m') :
    m'.All good := by
  have hends := h m hm
  rw [hx] at hends
  exact hends

theorem imp (h : Keeps good x Q) (hQ : ∀ a, Q a → Q' a) : Keeps good x Q' := by
  intro m hm
  cases hx : x.run m with
  | ok a m' =>
    obtain ⟨hm', ha⟩ := h.ok hm hx
    exact ⟨hm', hQ a ha⟩
  | error stop m' => exact h.error hm hx

theorem pure {a : α} (h : Q a) : Keeps good (pure a) Q := fun _ hm => ⟨hm, h⟩

theorem throw (stop : Stop) : Keeps good (throw stop : Exec α) Q := fun _ hm => hm

/-- One computation after the other. -/
theorem bind (hx : Keeps good x Q) (hf : ∀ a, Q a → Keeps good (f a) R) :
    Keeps good (x >>= f) R := by
  intro m hm
  show match EStateM.bind x f m with
    | .ok b m' => m'.All good ∧ R b
    | .error _ m' => m'.All good
  rw [EStateM.bind]
  cases hxm : x m with
  | ok a m' =>
    obtain ⟨hm', ha⟩ := hx.ok hm hxm
    exact hf a ha m' hm'
  | error stop m' => exact hx.error hm hxm

/-- What an early end leaves behind is what its handler starts from. -/
theorem tryCatch {handle : Stop → Exec α} (hx : Keeps good x Q)
    (hhandle : ∀ stop, Keeps good (handle stop) Q) : Keeps good (tryCatch x handle) Q := by
  intro m hm
  cases hxm : x.run m with
  | ok a m' =>
    rw [Exec.run_tryCatch_ok hxm]
    exact hx.ok hm hxm
  | error stop m' =>
    rw [Exec.run_tryCatch_error hxm]
    exact hhandle stop m' (hx.error hm hxm)

theorem modifyGet {f : Machine → α × Machine}
    (h : ∀ m : Machine, m.All good → (f m).2.All good ∧ Q (f m).1) :
    Keeps good (modifyGet f : Exec α) Q := fun m hm => h m hm

end Exec.Keeps

/-! ### The operations of the machine -/

namespace Exec

theorem keeps_get : Keeps good get (Machine.All good) := fun _ hm => ⟨hm, hm⟩

theorem keeps_heap : Keeps good heap (Heap.All good) := fun _ hm => ⟨hm, hm.bound⟩

theorem keeps_setHeap {h : Heap} (hh : h.All good) : Keeps good (setHeap h) fun _ => True :=
  .modifyGet fun _ hm => ⟨⟨hh, hm.passed⟩, trivial⟩

theorem keeps_enter (pos : Option Nat) : Keeps good (enter pos) fun _ => True :=
  .modifyGet fun _ hm => ⟨⟨hm.bound, hm.passed⟩, trivial⟩

theorem keeps_emit (topic message : String) : Keeps good (emit topic message) fun _ => True :=
  .modifyGet fun _ hm => ⟨⟨hm.bound, hm.passed⟩, trivial⟩

theorem keeps_freshId : Keeps good freshId fun _ => True :=
  .modifyGet fun _ hm => ⟨⟨hm.bound, hm.passed⟩, trivial⟩

theorem keeps_alloc (parent : Option ScopeId) (boundary : Bool) :
    Keeps good (alloc parent boundary) fun _ => True :=
  .modifyGet fun _ hm => ⟨⟨hm.bound.alloc parent boundary, hm.passed⟩, trivial⟩

theorem keeps_defineAll (s : Nat) {pairs : List (String × Value)} (hpairs : ∀ p ∈ pairs, good p.2) :
    Keeps good (defineAll s pairs) fun _ => True :=
  .modifyGet fun _ hm => ⟨⟨hm.bound.defineAll s hpairs, hm.passed⟩, trivial⟩

theorem keeps_assign (s : Nat) (name : String) {v : Value} (hv : good v) :
    Keeps good (assign s name v) fun _ => True :=
  .modifyGet fun _ hm => ⟨⟨hm.bound.define _ name hv, hm.passed⟩, trivial⟩

theorem keeps_push {frame : Frame} (hargs : ∀ v ∈ frame.args, good v) :
    Keeps good (push frame) fun _ => True := by
  refine .modifyGet fun m hm => ⟨⟨hm.bound, ?_⟩, trivial⟩
  intro f hf
  have hf : f ∈ (m.frames ++ [frame]) ++ (frame :: m.trace) := hf
  simp only [List.mem_append, List.mem_cons, List.not_mem_nil, or_false] at hf
  rcases hf with (hf | rfl) | rfl | hf
  · exact hm.passed f (List.mem_append_left _ hf)
  · exact hargs
  · exact hargs
  · exact hm.passed f (List.mem_append_right _ hf)

theorem keeps_pop : Keeps good pop fun _ => True := by
  refine .modifyGet fun m hm => ⟨⟨hm.bound, fun f hf => ?_⟩, trivial⟩
  have hf : f ∈ m.frames.dropLast ++ m.trace := hf
  apply hm.passed f
  rcases List.mem_append.1 hf with hf | hf
  · exact List.mem_append_left _ (List.dropLast_subset _ hf)
  · exact List.mem_append_right _ hf

theorem keeps_clear : Keeps good clear fun _ => True :=
  .modifyGet fun _ hm => ⟨⟨hm.bound, fun f hf => hm.passed f (List.mem_append_right _ hf)⟩, trivial⟩

theorem keeps_fail {α : Type} {Q : α → Prop} (cause : Cause) (pos : Option Nat) :
    Keeps good (fail cause pos) Q :=
  .throw _

theorem keeps_ofStop {α : Type} {Q : α → Prop} {r : Except Stop α} (h : ∀ a, r = .ok a → Q a) :
    Keeps good (ofStop r) Q := by
  cases r with
  | ok a => exact .pure (h a rfl)
  | error stop => exact .throw stop

theorem keeps_ofFault {α : Type} {Q : α → Prop} {r : Except Fault α} (h : ∀ a, r = .ok a → Q a) :
    Keeps good (ofFault r) Q := by
  cases r with
  | ok a => exact .pure (h a rfl)
  | error f => exact .throw _

end Exec

end Klex
