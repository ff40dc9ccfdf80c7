import Mathlib.Logic.Relation
import Klex.Proofs.Machine.Policy
import Klex.Proofs.Machine.Trait

/-!
# Steps of a machine

* **`Machine.Fit`** — the invariant: scopes are nested, and every value that is bound or passed as an
  argument is one that may stand in this machine.
* **`Machine.Step`** — the elementary changes: one that leaves the scopes alone, a new scope inside an
  existing one, a binding in an existing scope.  New names appear in the scopes of a given set alone.
* **`Fit.step`**, **`Fit.steps`** — a step keeps the invariant, hence any number of steps do; and
  **`Steps.grows`** — the scopes only grow.
* **`Exec.Obeys`** — a computation goes by steps from a machine that fits to one that does, whether it
  ends or stops early.  One rule for each way of putting computations together, and one for each
  operation of the machine.
-/

namespace Klex

namespace Machine

/-- Scopes are nested, and all values in the machine may stand there. -/
structure Fit (P : Policy) (m : Machine) : Prop where
  nested : m.heap.Nested
  values : ∀ s, ∀ p ∈ m.heap.bindings s, p.2.Fits P m.heap.size
  frames : ∀ f ∈ m.frames, f.Fits P m.heap.size
  trace : ∀ f ∈ m.trace, f.Fits P m.heap.size

/-- A value that is bound in a scope or passed in a call, or that is part of such a value. -/
def Holds (m : Machine) (v : Value) : Prop :=
  (∃ s, ∃ p ∈ m.heap.bindings s, v ∈ p.2.parts) ∨
    ∃ f ∈ m.frames ++ m.trace, v ∈ f.func.parts ∨ ∃ a ∈ f.args, v ∈ a.parts

/-- An elementary change, which gives new names to the scopes of `added` alone. -/
inductive Step (P : Policy) (added : Nat → Prop) (m : Machine) : Machine → Prop
  /-- Everything but the scopes may change. -/
  | note (m' : Machine) (hheap : m'.heap = m.heap)
      (hframes : ∀ f ∈ m'.frames, f.Fits P m.heap.size)
      (htrace : ∀ f ∈ m'.trace, f.Fits P m.heap.size) : Step P added m m'
  | alloc (parent : Option ScopeId) (boundary : Bool)
      (hparent : ∀ p : Nat, parent = some p → p < m.heap.size) :
      Step P added m { m with heap := (m.heap.alloc parent boundary).2 }
  | define (s : Nat) (name : String) (v : Value) (hs : s < m.heap.size)
      (hv : v.Fits P m.heap.size) (hnew : added s ∨ m.heap.binds name s = true) :
      Step P added m { m with heap := m.heap.define s name v }

/-- Any number of elementary changes. -/
abbrev Steps (P : Policy) (added : Nat → Prop) : Machine → Machine → Prop :=
  Relation.ReflTransGen (Step P added)

section

variable {P : Policy} {added more : Nat → Prop} {m m' : Machine}

/-! ### One step -/

theorem Step.grows (h : Step P added m m') : m.heap.Grows added m'.heap := by
  cases h with
  | note m' hheap _ _ =>
    rw [hheap]
    exact .refl _ _
  | alloc parent boundary _ => exact .alloc _ _ _ _
  | define s name v _ _ hnew => exact .define _ v hnew

theorem Step.widen (hmore : ∀ s, added s → more s) (h : Step P added m m') : Step P more m m' := by
  cases h with
  | note m' hheap hframes htrace => exact .note m' hheap hframes htrace
  | alloc parent boundary hparent => exact .alloc parent boundary hparent
  | define s name v hs hv hnew => exact .define s name v hs hv (hnew.imp_left (hmore s))

/-- **An assignment adds a name to no scope but the given one**: any other scope had the name. -/
theorem Step.assign {s : Nat} (name : String) {v : Value} (hs : s < m.heap.size) (hadded : added s)
    (hv : v.Fits P m.heap.size) : Step P added m { m with heap := m.heap.assign s name v } := by
  rw [Heap.assign]
  cases ho : m.heap.owner? s name with
  | none => exact .define s name v hs hv (.inl hadded)
  | some o =>
    have hbinds := (Heap.owner?_binds ho).1
    exact .define o name v (Heap.lt_of_binds hbinds) hv (.inr hbinds)

/-- **A step keeps the invariant.** -/
theorem Fit.step (hm : m.Fit P) (h : Step P added m m') : m'.Fit P := by
  have hsize := h.grows.size
  cases h with
  | note m' hheap hframes htrace =>
    refine ⟨?_, ?_, ?_, ?_⟩ <;> rw [hheap]
    · exact hm.nested
    · exact hm.values
    · exact hframes
    · exact htrace
  | alloc parent boundary hparent =>
    refine ⟨hm.nested.alloc boundary hparent, ?_, ?_, ?_⟩
    · intro s p hp
      have hp : p ∈ (m.heap.alloc parent boundary).2.bindings s := hp
      rw [Heap.bindings_alloc] at hp
      exact (hm.values s p hp).mono hsize
    · exact fun f hf => (hm.frames f hf).mono hsize
    · exact fun f hf => (hm.trace f hf).mono hsize
  | define s name v hs hv _ =>
    refine ⟨hm.nested.define s name v, ?_, ?_, ?_⟩
    · intro t p hp
      have hp : p ∈ (m.heap.define s name v).bindings t := hp
      by_cases hst : s = t
      · subst hst
        rw [Heap.bindings_define_self _ _ _ hs] at hp
        rcases Bindings.mem_put hp with hp | hp
        · exact (hm.values s p hp).mono hsize
        · rw [hp]
          exact hv.mono hsize
      · rw [Heap.bindings_define_of_ne _ _ _ hst] at hp
        exact (hm.values t p hp).mono hsize
    · exact fun f hf => (hm.frames f hf).mono hsize
    · exact fun f hf => (hm.trace f hf).mono hsize

/-! ### Any number of steps -/

/-- **Any number of steps keep the invariant.** -/
theorem Fit.steps (hm : m.Fit P) (h : Steps P added m m') : m'.Fit P := by
  induction h with
  | refl => exact hm
  | tail _ hstep ih => exact ih.step hstep

/-- **Scopes only grow**, and get new names in the given set alone. -/
theorem Steps.grows (h : Steps P added m m') : m.heap.Grows added m'.heap := by
  induction h with
  | refl => exact .refl _ _
  | tail _ hstep ih => exact ih.trans hstep.grows

theorem Steps.widen (hmore : ∀ s, added s → more s) (h : Steps P added m m') :
    Steps P more m m' := by
  induction h with
  | refl => exact .refl
  | tail _ hstep ih => exact ih.tail (hstep.widen hmore)

theorem Steps.defineAll {s : Nat} {pairs : List (String × Value)} (hs : s < m.heap.size)
    (hadded : added s) (hpairs : ∀ p ∈ pairs, p.2.Fits P m.heap.size) :
    Steps P added m { m with heap := m.heap.defineAll s pairs } := by
  induction pairs generalizing m with
  | nil => exact .refl
  | cons p pairs ih =>
    have hstep : Step P added m { m with heap := m.heap.define s p.1 p.2 } :=
      .define s p.1 p.2 hs (hpairs p List.mem_cons_self) (.inl hadded)
    refine .head hstep (ih (m := { m with heap := m.heap.define s p.1 p.2 }) ?_ ?_)
    · exact Nat.lt_of_lt_of_le hs hstep.grows.size
    · intro q hq
      exact (hpairs q (List.mem_cons_of_mem _ hq)).mono hstep.grows.size

/-- What a name stands for may stand in the machine. -/
theorem Fit.lookup? (hm : m.Fit P) {s : ScopeId} {name : String} {v : Value}
    (hv : m.heap.lookup? s name = some v) : v.Fits P m.heap.size := by
  obtain ⟨o, hbound⟩ := Heap.mem_of_lookup? hv
  exact hm.values o _ hbound

/-- All that the machine holds may stand there. -/
theorem Fit.holds (hm : m.Fit P) {v : Value} (hv : m.Holds v) : v.Fits P m.heap.size := by
  rcases hv with ⟨s, p, hp, hv⟩ | ⟨f, hf, hv⟩
  · exact (hm.values s p hp).part _ v hv
  · have hfits : f.Fits P m.heap.size := (List.mem_append.1 hf).elim (hm.frames f) (hm.trace f)
    rcases hv with hv | ⟨a, ha, hv⟩
    · exact hfits.func.part _ v hv
    · exact (hfits.args a ha).part _ v hv

end

end Machine

/-! ### Computations -/

open Machine

/-- Steps lead from the machine to a result, or to an early end that may happen. -/
def Machine.Ends {α : Type} (P : Policy) (added : Nat → Prop) (result : α → Machine → Prop)
    (m : Machine) : EStateM.Result Stop Machine α → Prop
  | .ok a m' => Steps P added m m' ∧ result a m'
  | .error stop m' => Steps P added m m' ∧ stop.Within P

/-- From a machine that fits, the computation goes by steps. -/
def Exec.Obeys {α : Type} (P : Policy) (added : Nat → Prop) (x : Exec α)
    (result : α → Machine → Prop) (m : Machine) : Prop :=
  m.Fit P → m.Ends P added result (x.run m)

section

variable {α : Type} {P : Policy} {added more : Nat → Prop} {Q Q' : α → Machine → Prop}
  {m m' : Machine} {r : EStateM.Result Stop Machine α}

theorem Machine.Ends.after (h : m'.Ends P added Q r) (hsteps : Steps P added m m') :
    m.Ends P added Q r := by
  cases r with
  | ok a m'' => exact ⟨hsteps.trans h.1, h.2⟩
  | error stop m'' => exact ⟨hsteps.trans h.1, h.2⟩

theorem Machine.Ends.imp (h : m.Ends P added Q r) (hmore : ∀ s, added s → more s)
    (hQ : ∀ a m', Q a m' → Q' a m') : m.Ends P more Q' r := by
  cases r with
  | ok a m' => exact ⟨h.1.widen hmore, hQ a m' h.2⟩
  | error stop m' => exact ⟨h.1.widen hmore, h.2⟩

end

namespace Exec.Obeys

variable {α β : Type} {P : Policy} {added more : Nat → Prop} {m : Machine} {x : Exec α}
  {f : α → Exec β} {Q Q' : α → Machine → Prop} {R : β → Machine → Prop}

theorem of_fit (h : m.Fit P → Obeys P added x Q m) : Obeys P added x Q m := fun hm => h hm hm

theorem imp (h : Obeys P added x Q m) (hmore : ∀ s, added s → more s)
    (hQ : ∀ a m', Q a m' → Q' a m') : Obeys P more x Q' m :=
  fun hm => (h hm).imp hmore hQ

theorem widen (h : Obeys P added x Q m) (hmore : ∀ s, added s → more s) : Obeys P more x Q m :=
  h.imp hmore fun _ _ hq => hq

theorem pure {a : α} (h : Q a m) : Obeys P added (pure a) Q m :=
  fun _ => ⟨.refl, h⟩

theorem throw {stop : Stop} (h : stop.Within P) : Obeys P added (throw stop : Exec α) Q m :=
  fun _ => ⟨.refl, h⟩

/-- One computation after the other.  The second starts from a machine with no fewer scopes. -/
theorem bind (hx : Obeys P added x Q m)
    (hf : ∀ a m', m.heap.size ≤ m'.heap.size → Q a m' → Obeys P added (f a) R m') :
    Obeys P added (x >>= f) R m := by
  intro hm
  have hx := hx hm
  show m.Ends P added R (EStateM.bind x f m)
  rw [EStateM.bind]
  cases hxm : x m with
  | error stop m' =>
    rw [EStateM.run, hxm] at hx
    exact hx
  | ok a m' =>
    rw [EStateM.run, hxm] at hx
    exact (hf a m' hx.1.grows.size hx.2 (hm.steps hx.1)).after hx.1

/-- What an early end leaves behind is what its handler starts from. -/
theorem tryCatch {handle : Stop → Exec α} (hx : Obeys P added x Q m)
    (hhandle : ∀ stop m', m.heap.size ≤ m'.heap.size → stop.Within P →
      Obeys P added (handle stop) Q m') :
    Obeys P added (tryCatch x handle) Q m := by
  intro hm
  have hx := hx hm
  cases hxm : x.run m with
  | ok a m' =>
    rw [hxm] at hx
    rw [Exec.run_tryCatch_ok hxm]
    exact hx
  | error stop m' =>
    rw [hxm] at hx
    rw [Exec.run_tryCatch_error hxm]
    exact (hhandle stop m' hx.1.grows.size hx.2 (hm.steps hx.1)).after hx.1

/-- A change of the machine that is any number of steps. -/
theorem modifyGet {f : Machine → α × Machine} (hsteps : m.Fit P → Steps P added m (f m).2)
    (hQ : Q (f m).1 (f m).2) : Obeys P added (modifyGet f : Exec α) Q m :=
  fun hm => ⟨hsteps hm, hQ⟩

/-- A change that leaves the scopes alone, with no calls but those in progress or seen before. -/
theorem note {f : Machine → α × Machine} (hheap : (f m).2.heap = m.heap)
    (hframes : ∀ fr ∈ (f m).2.frames, fr ∈ m.frames) (htrace : (f m).2.trace = m.trace)
    (hQ : Q (f m).1 (f m).2) : Obeys P added (MonadStateOf.modifyGet f : Exec α) Q m := by
  refine modifyGet (fun hm => .single (.note _ hheap ?_ ?_)) hQ
  · exact fun fr hfr => hm.frames fr (hframes fr hfr)
  · rw [htrace]
    exact hm.trace

end Exec.Obeys

/-! ### The operations of the machine -/

namespace Exec

variable {P : Policy} {added : Nat → Prop} {m : Machine}

theorem obeys_enter (pos : Option Nat) : Obeys P added (enter pos) (fun _ _ => True) m :=
  .note rfl (fun _ h => h) rfl trivial

theorem obeys_emit (topic message : String) :
    Obeys P added (emit topic message) (fun _ _ => True) m :=
  .note rfl (fun _ h => h) rfl trivial

theorem obeys_freshId : Obeys P added freshId (fun _ _ => True) m :=
  .note rfl (fun _ h => h) rfl trivial

theorem obeys_pop : Obeys P added pop (fun _ _ => True) m :=
  .note rfl (fun _ h => List.dropLast_subset _ h) rfl trivial

theorem obeys_clear : Obeys P added clear (fun _ _ => True) m :=
  .note rfl (fun _ h => absurd h List.not_mem_nil) rfl trivial

theorem obeys_push {frame : Frame} (hframe : frame.Fits P m.heap.size) :
    Obeys P added (push frame) (fun _ _ => True) m := by
  refine .modifyGet (fun hm => .single (.note _ rfl ?_ ?_)) trivial
  · intro f hf
    rcases List.mem_append.1 hf with hf | hf
    · exact hm.frames f hf
    · rw [List.mem_singleton.1 hf]
      exact hframe
  · intro f hf
    rcases List.mem_cons.1 hf with rfl | hf
    · exact hframe
    · exact hm.trace f hf

theorem obeys_get : Obeys P added get (fun a m' => a = m' ∧ m' = m) m :=
  fun _ => ⟨.refl, rfl, rfl⟩

theorem obeys_heap : Obeys P added heap (fun h m' => h = m'.heap ∧ m' = m) m :=
  fun _ => ⟨.refl, rfl, rfl⟩

/-- The new scope is the next one. -/
theorem obeys_alloc {parent : Option ScopeId} (boundary : Bool)
    (hparent : ∀ p : Nat, parent = some p → p < m.heap.size) :
    Obeys P added (alloc parent boundary)
      (fun s m' => s = m.heap.size ∧ m'.heap.size = m.heap.size + 1) m :=
  .modifyGet (fun _ => .single (.alloc parent boundary hparent)) ⟨rfl, Heap.size_alloc ..⟩

theorem obeys_defineAll {s : Nat} {pairs : List (String × Value)} (hs : s < m.heap.size)
    (hadded : added s) (hpairs : ∀ p ∈ pairs, p.2.Fits P m.heap.size) :
    Obeys P added (defineAll s pairs) (fun _ _ => True) m :=
  .modifyGet (fun _ => .defineAll hs hadded hpairs) trivial

theorem obeys_assign {s : Nat} (name : String) {v : Value} (hs : s < m.heap.size) (hadded : added s)
    (hv : v.Fits P m.heap.size) : Obeys P added (assign s name v) (fun _ _ => True) m :=
  .modifyGet (fun _ => .single (.assign name hs hadded hv)) trivial

theorem obeys_fail {α : Type} {Q : α → Machine → Prop} (cause : Cause) (pos : Option Nat) :
    Obeys P added (fail cause pos) Q m :=
  .throw trivial

theorem obeys_ofStop {α : Type} {Q : α → Machine → Prop} {r : Except Stop α}
    (hok : ∀ a, r = .ok a → Q a m) (herror : ∀ stop, r = .error stop → stop.Within P) :
    Obeys P added (ofStop r) Q m := by
  cases r with
  | ok a => exact .pure (hok a rfl)
  | error stop => exact .throw (herror stop rfl)

theorem obeys_ofFault {α : Type} {Q : α → Machine → Prop} {r : Except Fault α}
    (hok : ∀ a, r = .ok a → Q a m) (herror : ∀ f, r = .error f → P.fault f) :
    Obeys P added (ofFault r) Q m := by
  cases r with
  | ok a => exact .pure (hok a rfl)
  | error f => exact .throw (herror f rfl)

end Exec

end Klex
