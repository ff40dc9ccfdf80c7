import Klex.Machine
import Klex.Proofs.Scope.Mirror

/-!
# Two machines side by side

* **`Machine.Mirrors`** — the second machine shows the first: its scopes as far as they belong to a given
  set, its effects, its calls and its supply of identities, all up to offsets.  Which node was entered
  last does not matter.
* **`Exec.Mirrors`** — **two computations keep in step**: from machines of which the second shows the first
  both come to a result, or both stop early for the same reason, and the second machine still shows the
  first; and neither touches a scope outside the set.  One rule for each way of putting computations
  together, and one for each operation of the machine.
-/

namespace Klex

/-- The call with other offsets. -/
def Frame.relocate (ρ : Relocation) (f : Frame) : Frame :=
  ⟨f.name, f.func.relocate ρ, f.args.map (Value.relocate ρ), ρ.offset f.site⟩

/-- The early end with another offset. -/
def Stop.relocate (ρ : Relocation) : Stop → Stop
  | .failure f => .failure ⟨f.cause, f.pos.map ρ.offset⟩
  | .fault f => .fault f

theorem Frame.map_relocate_keep (fs : List Frame) : fs.map (Frame.relocate .keep) = fs := by
  have hkeep : ∀ f ∈ fs, f.relocate .keep = f := by
    intro f _
    rw [Frame.relocate, Value.map_relocate_keep, Value.relocate_keep]
    rfl
  rw [List.map_congr_left hkeep, List.map_id']

theorem Stop.relocate_keep (s : Stop) : s.relocate .keep = s := by
  cases s with
  | fault f => rfl
  | failure f =>
    rw [Stop.relocate, show Relocation.keep.offset = id from rfl, Option.map_id]
    rfl

/-- The second machine shows the first. -/
structure Machine.Mirrors (ρ : Relocation) (R : Nat → Prop) (m n : Machine) : Prop where
  heap : m.heap.Mirrors ρ R n.heap
  effects : n.effects = m.effects
  frames : n.frames = m.frames.map (Frame.relocate ρ)
  trace : n.trace = m.trace.map (Frame.relocate ρ)
  nextId : n.nextId = m.nextId
  total : n.total = m.total

/-- The second of two values shows the first, which leads to scopes of the set only. -/
structure Value.Mirrors (ρ : Relocation) (R : Nat → Prop) (v w : Value) : Prop where
  eq : w = v.relocate ρ
  inside : v.Inside R

/-- The same of rows of values. -/
structure Value.AllMirror (ρ : Relocation) (R : Nat → Prop) (vs ws : List Value) : Prop where
  eq : ws = vs.map (Value.relocate ρ)
  inside : ∀ v ∈ vs, v.Inside R

/-- The same of values that there may be or not. -/
structure Value.MirrorsIfAny (ρ : Relocation) (R : Nat → Prop) (v? w? : Option Value) : Prop where
  eq : w? = v?.map (Value.relocate ρ)
  inside : ∀ v, v? = some v → v.Inside R

/-! ### Computations -/

/-- What two runs come to: results that are related, or early ends for the same reason. -/
def Machine.EndAlike {α β : Type} (ρ : Relocation) (R : Nat → Prop) (Q : α → β → Prop)
    (m n : Machine) : EStateM.Result Stop Machine α → EStateM.Result Stop Machine β → Prop
  | .ok a m', .ok b n' =>
    Q a b ∧ m'.Mirrors ρ R n' ∧ m.heap.Spares R m'.heap ∧ n.heap.Spares R n'.heap
  | .error stop m', .error stop' n' =>
    stop' = stop.relocate ρ ∧ m'.Mirrors ρ R n' ∧ m.heap.Spares R m'.heap ∧
      n.heap.Spares R n'.heap
  | _, _ => False

/-- The computations keep in step. -/
def Exec.Mirrors {α β : Type} (ρ : Relocation) (R : Nat → Prop) (x : Exec α) (y : Exec β)
    (Q : α → β → Prop) : Prop :=
  ∀ m n : Machine, m.Mirrors ρ R n → m.EndAlike ρ R Q n (x.run m) (y.run n)

section

variable {α β : Type} {ρ : Relocation} {R : Nat → Prop} {Q : α → β → Prop}
  {m m' n n' : Machine} {r : EStateM.Result Stop Machine α} {r' : EStateM.Result Stop Machine β}

theorem Machine.EndAlike.after (h : m'.EndAlike ρ R Q n' r r') (hm : m.heap.Spares R m'.heap)
    (hn : n.heap.Spares R n'.heap) : m.EndAlike ρ R Q n r r' := by
  cases r with
  | ok a m'' =>
    cases r' with
    | ok b n'' => exact ⟨h.1, h.2.1, hm.trans h.2.2.1, hn.trans h.2.2.2⟩
    | error stop' n'' => exact h.elim
  | error stop m'' =>
    cases r' with
    | ok b n'' => exact h.elim
    | error stop' n'' => exact ⟨h.1, h.2.1, hm.trans h.2.2.1, hn.trans h.2.2.2⟩

end

namespace Exec.Mirrors

variable {α β γ δ : Type} {ρ : Relocation} {R : Nat → Prop} {x : Exec α} {y : Exec β}
  {f : α → Exec γ} {g : β → Exec δ} {Q : α → β → Prop} {Q' : γ → δ → Prop}

theorem pure {a : α} {b : β} (h : Q a b) : Mirrors ρ R (pure a) (pure b) Q :=
  fun m n hmn => ⟨h, hmn, .refl R m.heap, .refl R n.heap⟩

theorem throw (stop : Stop) :
    Mirrors ρ R (throw stop : Exec α) (throw (stop.relocate ρ) : Exec β) Q :=
  fun m n hmn => ⟨rfl, hmn, .refl R m.heap, .refl R n.heap⟩

/-- One computation after the other. -/
theorem bind (hx : Mirrors ρ R x y Q) (hf : ∀ a b, Q a b → Mirrors ρ R (f a) (g b) Q') :
    Mirrors ρ R (x >>= f) (y >>= g) Q' := by
  intro m n hmn
  have hends := hx m n hmn
  show m.EndAlike ρ R Q' n (EStateM.bind x f m) (EStateM.bind y g n)
  rw [EStateM.bind, EStateM.bind]
  rw [EStateM.run, EStateM.run] at hends
  cases hxm : x m with
  | error stop m' =>
    cases hyn : y n with
    | ok b n' =>
      rw [hxm, hyn] at hends
      exact hends.elim
    | error stop' n' =>
      rw [hxm, hyn] at hends
      exact hends
  | ok a m' =>
    cases hyn : y n with
    | error stop' n' =>
      rw [hxm, hyn] at hends
      exact hends.elim
    | ok b n' =>
      rw [hxm, hyn] at hends
      obtain ⟨hab, hmn', hm, hn⟩ := hends
      exact (hf a b hab m' n' hmn').after hm hn

/-- A change of the machine. -/
theorem modifyGet {f : Machine → α × Machine} {g : Machine → β × Machine}
    (h : ∀ m n : Machine, m.Mirrors ρ R n → Q (f m).1 (g n).1 ∧ (f m).2.Mirrors ρ R (g n).2 ∧
      m.heap.Spares R (f m).2.heap ∧ n.heap.Spares R (g n).2.heap) :
    Mirrors ρ R (modifyGet f : Exec α) (modifyGet g : Exec β) Q :=
  fun m n hmn => h m n hmn

end Exec.Mirrors

/-! ### The operations of the machine -/

namespace Exec

variable {ρ : Relocation} {R : Nat → Prop}

theorem mirrors_enter (pos pos' : Option Nat) :
    Mirrors ρ R (enter pos) (enter pos') fun _ _ => True := by
  refine .modifyGet fun m n hmn => ?_
  refine ⟨trivial, ?_, .refl R m.heap, .refl R n.heap⟩
  exact ⟨hmn.heap, hmn.effects, hmn.frames, hmn.trace, hmn.nextId, hmn.total⟩

theorem mirrors_heap : Mirrors ρ R heap heap (Heap.Mirrors ρ R) :=
  fun m n hmn => ⟨hmn.heap, hmn, .refl R m.heap, .refl R n.heap⟩

theorem mirrors_freshId : Mirrors ρ R freshId freshId fun id id' => id' = id := by
  refine .modifyGet fun m n hmn => ?_
  refine ⟨hmn.nextId, ?_, .refl R m.heap, .refl R n.heap⟩
  refine ⟨hmn.heap, hmn.effects, hmn.frames, hmn.trace, ?_, hmn.total⟩
  show n.nextId + 1 = m.nextId + 1
  rw [hmn.nextId]

theorem mirrors_emit (topic message : String) :
    Mirrors ρ R (emit topic message) (emit topic message) fun _ _ => True := by
  refine .modifyGet fun m n hmn => ?_
  refine ⟨trivial, ?_, .refl R m.heap, .refl R n.heap⟩
  refine ⟨hmn.heap, ?_, hmn.frames, hmn.trace, hmn.nextId, hmn.total⟩
  show n.effects.push _ = m.effects.push _
  rw [hmn.effects]

theorem mirrors_push (frame : Frame) :
    Mirrors ρ R (push frame) (push (frame.relocate ρ)) fun _ _ => True := by
  refine .modifyGet fun m n hmn => ?_
  refine ⟨trivial, ⟨hmn.heap, hmn.effects, ?_, ?_, hmn.nextId, hmn.total⟩, .refl R m.heap,
    .refl R n.heap⟩
  · show n.frames ++ [frame.relocate ρ] = (m.frames ++ [frame]).map (Frame.relocate ρ)
    rw [hmn.frames, List.map_append]
    rfl
  · show frame.relocate ρ :: n.trace = (frame :: m.trace).map (Frame.relocate ρ)
    rw [hmn.trace, List.map_cons]

theorem mirrors_pop : Mirrors ρ R pop pop fun _ _ => True := by
  refine .modifyGet fun m n hmn => ?_
  refine ⟨trivial, ?_, .refl R m.heap, .refl R n.heap⟩
  refine ⟨hmn.heap, hmn.effects, ?_, hmn.trace, hmn.nextId, hmn.total⟩
  show n.frames.dropLast = m.frames.dropLast.map (Frame.relocate ρ)
  rw [hmn.frames, List.map_dropLast]

/-- The new scope has the same number in both machines, and belongs to the set. -/
theorem mirrors_alloc {parent : Option ScopeId} (hparent : ∀ p, parent = some p → R p)
    (boundary : Bool) :
    Mirrors ρ R (alloc parent boundary) (alloc parent boundary) fun s s' => s' = s ∧ R s := by
  refine .modifyGet fun m n hmn => ?_
  have hnew : R m.heap.size := hmn.heap.fresh _ (Nat.le_refl _)
  refine ⟨⟨hmn.heap.size, hnew⟩, ?_, .alloc hnew parent boundary, .alloc ?_ parent boundary⟩
  · exact ⟨hmn.heap.alloc hparent boundary, hmn.effects, hmn.frames, hmn.trace, hmn.nextId,
      hmn.total⟩
  · rw [hmn.heap.size]
    exact hnew

theorem mirrors_defineAll {s : Nat} (hs : R s) {pairs : List (String × Value)}
    (hpairs : ∀ p ∈ pairs, p.2.Inside R) :
    Mirrors ρ R (defineAll s pairs) (defineAll s (Bindings.relocate ρ pairs)) fun _ _ => True := by
  refine .modifyGet fun m n hmn => ?_
  refine ⟨trivial, ?_, .defineAll hs _, .defineAll hs _⟩
  exact ⟨hmn.heap.defineAll hpairs, hmn.effects, hmn.frames, hmn.trace, hmn.nextId, hmn.total⟩

theorem mirrors_assign {s : Nat} (hs : R s) (name : String) {v : Value} (hv : v.Inside R) :
    Mirrors ρ R (assign s name v) (assign s name (v.relocate ρ)) fun _ _ => True := by
  refine .modifyGet fun m n hmn => ?_
  refine ⟨trivial, ?_, .assign hs ?_ v, .assign hs ?_ _⟩
  · exact ⟨hmn.heap.assign hs hv name, hmn.effects, hmn.frames, hmn.trace, hmn.nextId, hmn.total⟩
  · exact fun o => hmn.heap.owner_inside hs
  · intro o ho
    rw [hmn.heap.owner? hs] at ho
    exact hmn.heap.owner_inside hs ho

theorem mirrors_fail {α β : Type} {Q : α → β → Prop} (cause : Cause) (pos : Option Nat) :
    Mirrors ρ R (fail cause pos) (fail cause (pos.map ρ.offset)) Q :=
  .throw (.failure ⟨cause, pos⟩)

theorem mirrors_fault {α β : Type} {Q : α → β → Prop} (f : Fault) :
    Mirrors ρ R (fault f) (fault f) Q :=
  .throw (.fault f)

end Exec

end Klex
