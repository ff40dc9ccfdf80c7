import Klex.Session
import Klex.Proofs.Machine.Steps
import Klex.Proofs.Text.Order

/-!
# The machine that a session starts with

* **`Given.Fits`**, **`Session.Equips`** — what the host gives is within a policy: values, natives and
  methods.
* **`Exec.Finishes`** — a computation that goes by steps and does not stop early.
* **`Session.start_fit`** — **the machine of a new session fits**, and has the two outer scopes.
-/

namespace Klex

open Machine

/-! ### What the host gives -/

mutual

/-- A description of a value that may turn up. -/
def Given.Fits (P : Policy) : Given → Prop
  | .null => P.atom .null
  | .bool b => P.atom (.bool b)
  | .int n => P.atom (.int n)
  | .float x => P.atom (.float x)
  | .text s => P.atom (.text s)
  | .absent => P.atom .absent
  | .native _ _ code => P.native code
  | .list items => Given.FitAll P items
  | .function _ | .ref _ => True

/-- Descriptions of values that may turn up. -/
def Given.FitAll (P : Policy) : List Given → Prop
  | [] => True
  | g :: gs => g.Fits P ∧ Given.FitAll P gs

end

/-- What a session is started with is within the policy. -/
structure Session.Equips (P : Policy) (withBuiltins : Bool) (methods : List Method)
    (init : List (String × Given)) : Prop where
  builtins : withBuiltins = true → ∀ p ∈ builtins, P.native p.2
  methods : ∀ method ∈ methods, ∀ code, method.exposed = true → method.code = some code →
    P.native code ∧ method.value.Fits P
  init : ∀ p ∈ init, p.2.Fits P

/-! ### Computations that do not stop early -/

/-- From a machine that fits, the computation goes by steps to a result. -/
def Exec.Finishes {α : Type} (P : Policy) (x : Exec α) (result : α → Machine → Prop) (m : Machine) :
    Prop :=
  m.Fit P → ∃ a m', x.run m = .ok a m' ∧ Steps P (fun _ => True) m m' ∧ result a m'

namespace Exec.Finishes

variable {α β : Type} {P : Policy} {m : Machine} {x : Exec α} {f : α → Exec β}
  {Q : α → Machine → Prop} {R : β → Machine → Prop}

theorem pure {a : α} (h : Q a m) : Finishes P (pure a) Q m := fun _ => ⟨a, m, rfl, .refl, h⟩

theorem bind (hx : Finishes P x Q m)
    (hf : ∀ a m', m'.Fit P → m.heap.size ≤ m'.heap.size → Q a m' → Finishes P (f a) R m') :
    Finishes P (x >>= f) R m := by
  intro hm
  obtain ⟨a, m₁, hrun, hsteps, hq⟩ := hx hm
  have hm₁ := hm.steps hsteps
  obtain ⟨b, m₂, hrun', hsteps', hr⟩ := hf a m₁ hm₁ hsteps.grows.size hq hm₁
  refine ⟨b, m₂, ?_, hsteps.trans hsteps', hr⟩
  show EStateM.bind x f m = .ok b m₂
  rw [EStateM.bind, show x m = .ok a m₁ from hrun]
  exact hrun'

/-- An operation of the machine does not stop early if its run shows a result. -/
theorem of_obeys (h : Exec.Obeys P (fun _ => True) x Q m) {a : α} {m' : Machine}
    (hrun : x.run m = .ok a m') : Finishes P x Q m := by
  intro hm
  have hends := h hm
  rw [hrun] at hends
  exact ⟨a, m', hrun, hends⟩

end Exec.Finishes

/-! ### Filling the outermost scope -/

section

variable {P : Policy} {m : Machine}

-- The recursion is on the description, with the items of a list as the inner one.
mutual

theorem Given.realize_finishes (hnull : P.atom .null) :
    (g : Given) → g.Fits P → {m : Machine} → rootScope < m.heap.size →
      Exec.Finishes P g.realize (Value.Stands P) m
  | .null, h, _, _ | .bool _, h, _, _ | .int _, h, _, _ | .float _, h, _, _ | .text _, h, _, _
  | .absent, h, _, _ => by
    rw [Given.realize]
    exact .pure h
  | .function params, _, _, hroot => by
    rw [Given.realize]
    refine (Exec.Finishes.of_obeys Exec.obeys_freshId rfl).bind fun id m₁ _ hm₁ _ => .pure ?_
    exact ⟨Nat.lt_of_lt_of_le hroot hm₁, by simp [Stmt.Within, Stmt.nodes, Stmt.nodesAll]⟩
  | .native name discards code, h, _, _ => by
    rw [Given.realize]
    refine (Exec.Finishes.of_obeys Exec.obeys_freshId rfl).bind fun id m₁ _ _ _ => .pure ?_
    exact ⟨h, trivial⟩
  | .list items, h, _, hroot => by
    rw [Given.realize]
    refine (Given.realizeAll_finishes hnull items h hroot).bind fun vs m₁ _ _ hvs => ?_
    refine (Exec.Finishes.of_obeys Exec.obeys_freshId rfl).bind fun id m₂ _ hm₂ _ => .pure ?_
    exact (Value.fitAll_iff vs).2 fun v hv => (hvs v hv).mono hm₂
  | .ref name, _, _, _ => by
    rw [Given.realize]
    refine (Exec.Finishes.of_obeys Exec.obeys_heap rfl).bind ?_
    rintro _ m₁ hfit - ⟨rfl, -⟩
    refine .pure ?_
    cases hv : Bindings.get? (m₁.heap.bindings rootScope) name with
    | none => exact hnull
    | some v => exact hfit.values rootScope _ (Bindings.mem_of_get? hv)

theorem Given.realizeAll_finishes (hnull : P.atom .null) :
    (gs : List Given) → Given.FitAll P gs → {m : Machine} → rootScope < m.heap.size →
      Exec.Finishes P (Given.realizeAll gs) (fun vs m' => ∀ v ∈ vs, v.Fits P m'.heap.size) m
  | [], _, _, _ => by
    rw [Given.realizeAll]
    exact .pure (by simp)
  | g :: gs, h, _, hroot => by
    rw [Given.realizeAll]
    refine (Given.realize_finishes hnull g h.1 hroot).bind fun v m₁ _ hm₁ hv => ?_
    have hroot₁ := Nat.lt_of_lt_of_le hroot hm₁
    refine (Given.realizeAll_finishes hnull gs h.2 hroot₁).bind fun vs m₂ _ hm₂ hvs => .pure ?_
    exact List.forall_mem_cons.2 ⟨hv.mono hm₂, hvs⟩

end

namespace Session

theorem defineAll_finishes {pairs : List (String × Value)} (hroot : rootScope < m.heap.size)
    (hpairs : ∀ p ∈ pairs, p.2.Fits P m.heap.size) :
    Exec.Finishes P (Exec.defineAll rootScope pairs) (fun _ _ => True) m :=
  .of_obeys (Exec.obeys_defineAll hroot trivial hpairs) rfl

theorem installNative_finishes (key name : String) (discards : Bool) {code : Native}
    {bound : List Value} (hroot : rootScope < m.heap.size) (hcode : P.native code)
    (hbound : ∀ v ∈ bound, v.Fits P m.heap.size) :
    Exec.Finishes P (installNative key name discards code bound) (fun _ _ => True) m := by
  refine (Exec.Finishes.of_obeys Exec.obeys_freshId rfl).bind fun id m₁ _ hm₁ _ => ?_
  refine defineAll_finishes (Nat.lt_of_lt_of_le hroot hm₁) fun p hp => ?_
  rw [List.mem_singleton.1 hp]
  exact ⟨hcode, (Value.fitAll_iff bound).2 fun v hv => (hbound v hv).mono hm₁⟩

theorem installBuiltins_finishes {natives : List (String × Native)}
    (hroot : rootScope < m.heap.size) (hnatives : ∀ p ∈ natives, P.native p.2) :
    Exec.Finishes P (installBuiltins natives) (fun _ _ => True) m := by
  induction natives generalizing m with
  | nil => exact .pure trivial
  | cons p natives ih =>
    have hall := List.forall_mem_cons.1 hnatives
    refine (installNative_finishes p.1 p.1 true hroot hall.1 (by simp)).bind ?_
    exact fun _ m₁ _ hm₁ _ => ih (Nat.lt_of_lt_of_le hroot hm₁) hall.2

theorem installMethod_finishes {method : Method} (hnull : P.atom .null)
    (hroot : rootScope < m.heap.size)
    (hmethod : ∀ code, method.exposed = true → method.code = some code →
      P.native code ∧ method.value.Fits P) :
    Exec.Finishes P (installMethod method) (fun _ _ => True) m := by
  rw [installMethod]
  split
  · next code hexposed hcode =>
    have hgiven := hmethod code hexposed hcode
    refine (Given.realize_finishes hnull _ hgiven.2 hroot).bind fun v m₁ _ hm₁ hv => ?_
    refine installNative_finishes _ _ _ (Nat.lt_of_lt_of_le hroot hm₁) hgiven.1 ?_
    exact List.forall_mem_singleton.2 hv
  · exact .pure trivial

theorem mem_lastOfEach {methods : List Method} {method : Method} (h : method ∈ lastOfEach methods) :
    method ∈ methods := by
  induction methods with
  | nil => exact h
  | cons first rest ih =>
    rw [lastOfEach] at h
    split at h
    · exact List.mem_cons_of_mem _ (ih h)
    · rcases List.mem_cons.1 h with rfl | h
      · exact List.mem_cons_self
      · exact List.mem_cons_of_mem _ (ih h)

theorem installEach_finishes {methods : List Method} (hnull : P.atom .null)
    (hroot : rootScope < m.heap.size)
    (hmethods : ∀ method ∈ methods, ∀ code, method.exposed = true → method.code = some code →
      P.native code ∧ method.value.Fits P) :
    Exec.Finishes P (methods.forM installMethod) (fun _ _ => True) m := by
  induction methods generalizing m with
  | nil => exact .pure trivial
  | cons method methods ih =>
    have hall := List.forall_mem_cons.1 hmethods
    refine (installMethod_finishes hnull hroot hall.1).bind ?_
    exact fun _ m₁ _ hm₁ _ => ih (Nat.lt_of_lt_of_le hroot hm₁) hall.2

theorem installGiven_finishes {init : List (String × Given)} (hnull : P.atom .null)
    (hroot : rootScope < m.heap.size) (hinit : ∀ p ∈ init, p.2.Fits P) :
    Exec.Finishes P (installGiven init) (fun _ _ => True) m := by
  induction init generalizing m with
  | nil => exact .pure trivial
  | cons p init ih =>
    have hall := List.forall_mem_cons.1 hinit
    refine (Given.realize_finishes hnull p.2 hall.1 hroot).bind fun v m₁ _ hm₁ hv => ?_
    have hroot₁ := Nat.lt_of_lt_of_le hroot hm₁
    refine (defineAll_finishes hroot₁ (List.forall_mem_singleton.2 hv)).bind ?_
    exact fun _ m₂ _ hm₂ _ => ih (Nat.lt_of_lt_of_le hroot₁ hm₂) hall.2

/-! ### The whole of it -/

variable {withBuiltins : Bool} {methods : List Method} {init : List (String × Given)}

theorem prepare_finishes (hnull : P.atom .null) (h : Equips P withBuiltins methods init) :
    Exec.Finishes P (prepare withBuiltins methods init)
      (fun _ m' => globalScope < m'.heap.size) .empty := by
  rw [prepare]
  refine (Exec.Finishes.of_obeys (Exec.obeys_alloc false (by simp)) rfl).bind ?_
  rintro root m₀ - - ⟨rfl, hsize⟩
  have hrest : ∀ m₁ : Machine, rootScope < m₁.heap.size → Exec.Finishes P
      (do
        installMethods methods
        installGiven init
        let _ ← Exec.alloc (some rootScope) false)
      (fun _ m' => globalScope < m'.heap.size) m₁ := by
    intro m₁ hroot
    have hmethods : Exec.Finishes P (installMethods methods) (fun _ _ => True) m₁ :=
      installEach_finishes hnull hroot fun method hmem =>
        h.methods method (mem_lastOfEach ((Text.sortOn_perm _).mem_iff.1 hmem))
    refine hmethods.bind fun _ m₂ _ hm₂ _ => ?_
    have hroot₂ := Nat.lt_of_lt_of_le hroot hm₂
    refine (installGiven_finishes hnull hroot₂ h.init).bind fun _ m₃ _ hm₃ _ => ?_
    have hroot₃ := Nat.lt_of_lt_of_le hroot₂ hm₃
    refine (Exec.Finishes.of_obeys (Exec.obeys_alloc false ?_) rfl).bind ?_
    · rintro p ⟨⟩
      exact hroot₃
    · rintro s m₄ - - ⟨-, hsize⟩
      refine .pure ?_
      rw [hsize]
      exact Nat.succ_lt_succ hroot₃
  have hroot : rootScope < m₀.heap.size := by
    rw [hsize]
    exact Nat.zero_lt_succ _
  by_cases hwith : withBuiltins = true
  · show Exec.Finishes P (if withBuiltins = true then _ else _) _ m₀
    rw [if_pos hwith]
    refine (installBuiltins_finishes hroot (h.builtins hwith)).bind fun _ m₁ _ hm₁ _ => ?_
    exact hrest m₁ (Nat.lt_of_lt_of_le hroot hm₁)
  · show Exec.Finishes P (if withBuiltins = true then _ else _) _ m₀
    rw [if_neg hwith]
    exact hrest m₀ hroot

theorem empty_fit : Machine.empty.Fit P where
  nested := .empty
  values s p hp := by
    have hp : p ∈ Heap.empty.bindings s := hp
    rw [Heap.bindings_of_le (Nat.zero_le s)] at hp
    simp at hp
  frames f hf := by simp [Machine.empty] at hf
  trace f hf := by simp [Machine.empty] at hf

/-- **The machine of a new session fits**, and has the two outer scopes. -/
theorem start_fit (hnull : P.atom .null) (h : Equips P withBuiltins methods init) :
    (start withBuiltins methods init).Fit P ∧
      globalScope < (start withBuiltins methods init).heap.size := by
  obtain ⟨_, m', hrun, hsteps, hsize⟩ := prepare_finishes hnull h empty_fit
  rw [start, hrun]
  exact ⟨empty_fit.steps hsteps, hsize⟩

end Session

end

end Klex
