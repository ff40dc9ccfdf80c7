import Klex.Proofs.Evaluator.Mirror
import Klex.Proofs.Session.Scopes

/-!
# Runs see no more than they can reach

* **`Heap.Reach`** — the scopes that can be reached from some scopes: outward, and through the functions
  that are bound on the way.
* **`Machine.AgreeOn`** — two machines with the same scopes of a set, the same effects and the same calls.
* **`runs_isolated`** — **a run depends on the scopes that it can reach, and changes no others.**  A call
  depends on the scopes that the function and its arguments capture, whatever scope it is called from.

While a script runs, functions are made, bound and passed on, so that what can be reached changes; but
it never comes to lie outside what could be reached at the start and the scopes made since
(`Heap.Within`), and that set stays the same all along.
-/

namespace Klex

open Machine

/-- The scopes that can be reached from the roots. -/
inductive Heap.Reach (h : Heap) (roots : Nat → Prop) : Nat → Prop
  | root {t : Nat} : roots t → Reach h roots t
  | parent {t p : Nat} : Reach h roots t → h.parent? t = some p → Reach h roots p
  | captured {t u : Nat} {name : String} {v : Value} :
      Reach h roots t → (name, v) ∈ h.bindings t → v.Captures u → Reach h roots u

/-- The scopes that can be reached from the roots, and those that are still to be made. -/
def Heap.Within (h : Heap) (roots : Nat → Prop) (t : Nat) : Prop := h.Reach roots t ∨ h.size ≤ t

/-- The scopes that a call of a function starts from: the one that the function captures, and those that
its arguments capture. -/
def callRoots (home : Nat) (args : List Value) (t : Nat) : Prop :=
  t = home ∨ ∃ v ∈ args, v.Captures t

/-- The machines differ in scopes outside the set at most, and in the node entered last. -/
structure Machine.AgreeOn (R : Nat → Prop) (m n : Machine) : Prop where
  size : n.heap.size = m.heap.size
  scopes : ∀ t, R t → n.heap.scopes[t]? = m.heap.scopes[t]?
  effects : n.effects = m.effects
  frames : n.frames = m.frames
  trace : n.trace = m.trace
  nextId : n.nextId = m.nextId
  total : n.total = m.total

/-- Both runs come to the same result, or stop early for the same reason, on machines that agree; and
neither has changed a scope outside the set. -/
def Machine.EndSame {α : Type} (R : Nat → Prop) (m n : Machine) :
    EStateM.Result Stop Machine α → EStateM.Result Stop Machine α → Prop
  | .ok a m', .ok b n' =>
    b = a ∧ m'.AgreeOn R n' ∧ m.heap.Spares R m'.heap ∧ n.heap.Spares R n'.heap
  | .error stop m', .error stop' n' =>
    stop' = stop ∧ m'.AgreeOn R n' ∧ m.heap.Spares R m'.heap ∧ n.heap.Spares R n'.heap
  | _, _ => False

/-! ### Agreement and mirrors -/

section

variable {roots R : Nat → Prop} {m n : Machine}

/-- Nothing leads out of what can be reached. -/
theorem Machine.AgreeOn.mirrors (hm : m.Fit (.quiet Native.IsBuiltin))
    (h : m.AgreeOn (m.heap.Reach roots) n) : m.Mirrors .keep (m.heap.Within roots) n := by
  refine ⟨⟨h.size, ?_, fun t ht => .inr ht, ?_, ?_⟩, h.effects, ?_, ?_, h.nextId, h.total⟩
  · intro t ht
    rw [Scope.map_relocate_keep]
    rcases ht with ht | ht
    · exact h.scopes t ht
    · rw [Heap.getElem?_eq_none ht, Heap.getElem?_eq_none (h.size ▸ ht)]
  · intro t p ht hp
    rcases ht with ht | ht
    · exact .inl (ht.parent hp)
    · rw [Heap.parent?_of_le ht] at hp
      exact absurd hp (by simp)
  · intro t ht p hp
    rcases ht with ht | ht
    · exact (hm.values t p hp).inside (fun _ h => h) fun u hu => .inl (ht.captured hp hu)
    · rw [Heap.bindings_of_le ht] at hp
      exact absurd hp (by simp)
  · rw [Frame.map_relocate_keep, h.frames]
  · rw [Frame.map_relocate_keep, h.trace]

theorem Machine.Mirrors.agreeOn (h : m.Mirrors .keep R n) : m.AgreeOn R n where
  size := h.heap.size
  scopes t ht := by rw [h.heap.scopes t ht, Scope.map_relocate_keep]
  effects := h.effects
  frames := by rw [h.frames, Frame.map_relocate_keep]
  trace := by rw [h.trace, Frame.map_relocate_keep]
  nextId := h.nextId
  total := h.total

/-- Runs that keep in step without a change of offsets come to the same. -/
theorem Exec.Mirrors.endSame {α : Type} {x y : Exec α} {Q : α → α → Prop}
    (h : Exec.Mirrors .keep R x y Q) (hQ : ∀ a b, Q a b → b = a) (hmn : m.Mirrors .keep R n) :
    m.EndSame R n (x.run m) (y.run n) := by
  have hends := h m n hmn
  cases hx : x.run m with
  | ok a m' =>
    cases hy : y.run n with
    | ok b n' =>
      rw [hx, hy] at hends
      exact ⟨hQ a b hends.1, hends.2.1.agreeOn, hends.2.2⟩
    | error stop' n' =>
      rw [hx, hy] at hends
      exact hends.elim
  | error stop m' =>
    cases hy : y.run n with
    | ok b n' =>
      rw [hx, hy] at hends
      exact hends.elim
    | error stop' n' =>
      rw [hx, hy] at hends
      exact ⟨hends.1.trans (Stop.relocate_keep stop), hends.2.1.agreeOn, hends.2.2⟩

/-- What agrees on the scopes that can be reached has the same ones. -/
theorem Machine.AgreeOn.reach_iff (h : m.AgreeOn (m.heap.Reach roots) n) (t : Nat) :
    n.heap.Reach roots t ↔ m.heap.Reach roots t := by
  have hparent : ∀ t, m.heap.Reach roots t → n.heap.parent? t = m.heap.parent? t := by
    intro t ht
    rw [Heap.parent?, Heap.parent?, h.scopes t ht]
  have hbindings : ∀ t, m.heap.Reach roots t → n.heap.bindings t = m.heap.bindings t := by
    intro t ht
    rw [Heap.bindings, Heap.bindings, h.scopes t ht]
  constructor
  · intro ht
    induction ht with
    | root ht => exact .root ht
    | parent _ hp ih => exact ih.parent (hparent _ ih ▸ hp)
    | captured _ hv hu ih => exact ih.captured (hbindings _ ih ▸ hv) hu
  · intro ht
    induction ht with
    | root ht => exact .root ht
    | parent ht hp ih => exact ih.parent (by rw [hparent _ ht, hp])
    | captured ht hv hu ih => exact ih.captured (by rw [hbindings _ ht]; exact hv) hu

end

namespace Evaluator

/-- A function of the language is called in the scope that it captures, not in the caller's. -/
theorem call_closure_scope (host : Host) (depth id : Nat) (params : List String) (body : Stmt)
    (home : ScopeId) (args : List Value) (site : Option Nat) (s s' : ScopeId) :
    call host depth (.closure id params body home) args s site
      = call host depth (.closure id params body home) args s' site := by
  cases depth <;> rfl

end Evaluator

namespace Session

/-- **Runs are isolated.**  Let the natives of a machine be the builtins, and let another machine have
the same scopes as far as they can be reached from a scope `s`, the same effects and the same calls.
Then the same scopes can be reached in both, and any expression and any statement comes to the same in
`s` on both: to the same value or the same early end, with the same effects and calls, and the same
scopes among those that could be reached and those that are new; every other scope stays as it was.
The same is true of a call of a function when the machines agree on what can be reached from the scopes
that the function and its arguments capture, and then it does not matter which scope it is called
from. -/
theorem runs_isolated (m n : Machine) (hm : m.Fit (.quiet Native.IsBuiltin)) (depth : Nat) :
    (∀ s : Nat, m.AgreeOn (m.heap.Reach (· = s)) n →
      (∀ t, n.heap.Reach (· = s) t ↔ m.heap.Reach (· = s) t) ∧
      (∀ e : Expr, m.EndSame (m.heap.Within (· = s)) n
        ((Evaluator.evaluate toolbox depth e s).run m)
        ((Evaluator.evaluate toolbox depth e s).run n)) ∧
      ∀ stmt : Stmt, m.EndSame (m.heap.Within (· = s)) n
        ((Evaluator.execute toolbox depth stmt s).run m)
        ((Evaluator.execute toolbox depth stmt s).run n)) ∧
    ∀ (id : Nat) (params : List String) (body : Stmt) (home : Nat) (args : List Value)
      (site : Option Nat), (∀ v ∈ args, v.Fits (.quiet Native.IsBuiltin) m.heap.size) →
      m.AgreeOn (m.heap.Reach (callRoots home args)) n → ∀ s s' : Nat,
        m.EndSame (m.heap.Within (callRoots home args)) n
          ((Evaluator.call toolbox depth (.closure id params body home) args s site).run m)
          ((Evaluator.call toolbox depth (.closure id params body home) args s' site).run n) := by
  refine ⟨fun s hagree => ?_, ?_⟩
  · have hmirrors := hagree.mirrors hm
    have hs : m.heap.Within (· = s) s := .inl (.root rfl)
    have h := Evaluator.mirrors (ρ := .keep) (R := m.heap.Within (· = s)) toolbox_mirrors depth
    refine ⟨hagree.reach_iff, fun e => ?_, fun stmt => ?_⟩
    · refine (h.evaluate e hs).endSame (fun a b hab => ?_) hmirrors
      rw [hab.eq, Value.relocate_keep]
    · refine (h.execute stmt hs).endSame (fun a b hab => ?_) hmirrors
      rw [hab.eq]
      cases a with
      | none => rfl
      | some v => rw [Option.map_some, Value.relocate_keep]
  · intro id params body home args site hargs hagree s s'
    have hmirrors := hagree.mirrors hm
    have hroot : ∀ {t : Nat}, callRoots home args t → m.heap.Within (callRoots home args) t :=
      fun h => .inl (.root h)
    have hhome := hroot (.inl rfl)
    have hf : (Value.closure id params body home).Inside (m.heap.Within (callRoots home args)) :=
      Value.closure_inside hhome
    have hinside : ∀ v ∈ args, v.Inside (m.heap.Within (callRoots home args)) :=
      fun v hv => (hargs v hv).inside (fun _ h => h) fun t ht => hroot (.inr ⟨v, hv, ht⟩)
    have hcall := (Evaluator.mirrors (ρ := .keep) toolbox_mirrors depth).call site hf hinside hhome
    rw [Value.relocate_keep, Value.map_relocate_keep,
      show site.map Relocation.keep.offset = site from Option.map_id_apply] at hcall
    rw [Evaluator.call_closure_scope _ _ _ _ _ _ _ _ s home,
      Evaluator.call_closure_scope _ _ _ _ _ _ _ _ s' home]
    refine hcall.endSame (fun a b hab => ?_) hmirrors
    rw [hab.eq, Value.relocate_keep]

/-- A function of the outermost scope that asks for `x`. -/
def askingForX : Value := .closure 2 ["y"] (.ret 0 (.name 7 "x")) rootScope

/-- A new session whose scripts have bound `x`. -/
def withX : Machine :=
  { start true [] [] with heap := (start true [] []).heap.define globalScope "x" (.int 5) }

/-- From the outermost scope no other can be reached. -/
theorem start_reach {t : Nat} (h : (start true [] []).heap.Reach (callRoots rootScope [.int 1]) t) :
    t = rootScope := by
  have hparent : (start true [] []).heap.parent? rootScope = none := by decide
  have hbound : (start true [] []).heap.bindings rootScope
      = [("print", .native 0 "print" true .print []),
        ("printAvailableDebug", .native 1 "printAvailableDebug" true .printNames [])] := rfl
  induction h with
  | root hroot =>
    rcases hroot with hroot | ⟨v, hv, id, params, body, hpart⟩
    · exact hroot
    · rw [List.mem_singleton.1 hv] at hpart
      exact absurd hpart (by simp [Value.parts])
  | parent _ hp ih =>
    subst ih
    rw [hparent] at hp
    exact absurd hp (by simp)
  | captured _ hv hu ih =>
    subst ih
    obtain ⟨id, params, body, hpart⟩ := hu
    rw [hbound] at hv
    rcases List.mem_cons.1 hv with hv | hv
    · rw [(Prod.mk.inj hv).2] at hpart
      exact absurd hpart (by simp [Value.parts, Value.partsAll])
    · rw [(Prod.mk.inj (List.mem_singleton.1 hv)).2] at hpart
      exact absurd hpart (by simp [Value.parts, Value.partsAll])

theorem runs_isolated_callerVariable :
    (start true [] []).AgreeOn ((start true [] []).heap.Reach (callRoots rootScope [.int 1])) withX ∧
      ∃ m', (Evaluator.call toolbox 9 askingForX [.int 1] globalScope none).run withX
        = .error (.failure ⟨.unbound "x", some 7⟩) m' := by
  have hagree : (start true [] []).AgreeOn
      ((start true [] []).heap.Reach (callRoots rootScope [.int 1])) withX := by
    refine ⟨rfl, fun t ht => ?_, rfl, rfl, rfl, rfl, rfl⟩
    rw [start_reach ht]
    rfl
  have hends := (runs_isolated _ withX start_fit_builtins.1 9).2 2 ["y"] (.ret 0 (.name 7 "x"))
    rootScope [.int 1] none (List.forall_mem_singleton.2 trivial) hagree rootScope globalScope
  refine ⟨hagree, ?_⟩
  cases hrun : (Evaluator.call toolbox 9 askingForX [.int 1] globalScope none).run withX with
  | ok v m' =>
    rw [← askingForX, hrun] at hends
    exact hends.elim
  | error stop m' =>
    rw [← askingForX, hrun] at hends
    exact ⟨m', by rw [hends.1]⟩

end Session

end Klex
