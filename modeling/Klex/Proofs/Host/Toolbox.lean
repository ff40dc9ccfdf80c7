import Klex.Host.Toolbox
import Klex.Proofs.Evaluator.Conduct
import Klex.Proofs.Operator.Results

/-!
# The natives of the toolbox keep to their conduct

* **`Policy.lenient`** — the policy that asks nothing of literals, operators and faults, only of natives;
  it is sound (`Policy.lenient_sound`).
* **`Native.addsNames`** — the natives that can give new names to a scope that was there before: two
  that bind, and one that runs a script.
* **`toolbox_obeys`** — every native of the toolbox changes scopes by steps of the machine, and all but
  those three add no names.
-/

namespace Klex

open Machine

/-- Any literals, operators and faults, and the natives given. -/
def Policy.lenient (natives : Native → Prop) (binding : Prop) : Policy where
  atom _ := True
  operator _ := True
  native := natives
  fault _ := True
  binding := binding

section

variable {natives : Native → Prop} {binding : Prop}

/-- A lenient policy has nothing against any tree. -/
theorem Policy.lenient_admits (x : Expr) : (Policy.lenient natives binding).Admits x := by
  cases x <;> trivial

theorem Policy.lenient_sound : (Policy.lenient natives binding).Sound where
  null := trivial
  bool _ := trivial
  exhausted := trivial
  result _ _ _ hv := by
    obtain ⟨l, rfl, -⟩ := applyOperator_ok hv
    exact Value.ofLiteral_fits trivial
  overflow _ _ _ _ := trivial
  parsed _ x _ := lenient_admits x
  unparsed {_ _ stop} _ := by cases stop <;> trivial

end

/-- The natives that can bind a new name in a scope that was there before. -/
def Native.addsNames : Native → Bool
  | .define | .assign | .script => true
  | _ => false

/-! ### The operations of natives -/

section

variable {P : Policy} {added : Nat → Prop} {r : Request} {m : Machine}

theorem Request.Fits.arg {n : Nat} (h : r.Fits P n) (hnull : P.atom .null) (i : Nat) :
    (r.arg i).Fits P n := by
  rw [Request.arg]
  cases hv : r.args[i]? with
  | none => exact hnull
  | some v => exact h.args v (List.mem_of_getElem? hv)

theorem Heap.defineKey_ok {h h' : Heap} {s : ScopeId} {key v : Value}
    (hok : h.defineKey s key v = .ok h') : ∃ name, h' = h.define s name v := by
  rw [Heap.defineKey] at hok
  cases hname : key.asName with
  | error f => simp [hname, bind, Except.bind] at hok
  | ok name =>
    simp only [hname, bind, Except.bind, pure, Except.pure, Except.ok.injEq] at hok
    exact ⟨name, hok.symm⟩

theorem Heap.assignKey_ok {h h' : Heap} {s : ScopeId} {key v : Value}
    (hok : h.assignKey s key v = .ok h') : ∃ name, h' = h.assign s name v := by
  rw [Heap.assignKey] at hok
  cases hkey : key.asKey with
  | error f => simp [hkey, bind, Except.bind] at hok
  | ok _ =>
    cases hname : key.asName with
    | error f => simp [hkey, hname, bind, Except.bind] at hok
    | ok name =>
      simp only [hkey, hname, bind, Except.bind, pure, Except.pure, Except.ok.injEq] at hok
      exact ⟨name, hok.symm⟩

/-- A key stands for what a name stands for, or for the default. -/
theorem Heap.fetchKey_ok {h : Heap} {s : ScopeId} {key default v : Value}
    (hok : h.fetchKey s key default = .ok v) : v = default ∨ ∃ name, h.lookup? s name = some v := by
  rw [Heap.fetchKey] at hok
  cases hkey : key.asKey with
  | error f => simp [hkey, bind, Except.bind] at hok
  | ok name? =>
    cases name? with
    | error l =>
      simp only [hkey, bind, Except.bind, pure, Except.pure, Except.ok.injEq] at hok
      exact .inl hok.symm
    | ok name =>
      simp only [hkey, bind, Except.bind, pure, Except.pure, Except.ok.injEq] at hok
      cases hlook : h.lookup? s name with
      | none =>
        rw [hlook] at hok
        exact .inl hok.symm
      | some w =>
        rw [hlook] at hok
        exact .inr ⟨name, by rw [hlook, ← hok]; rfl⟩

theorem Heap.lookupKey_ok {h : Heap} {s : ScopeId} {key v : Value} {pos : Option Nat}
    (hok : h.lookupKey s key pos = .ok v) : ∃ name, h.lookup? s name = some v := by
  rw [Heap.lookupKey] at hok
  split at hok
  · simp at hok
  · simp at hok
  · next name _ =>
    rw [Heap.lookup] at hok
    cases hlook : h.lookup? s name with
    | none => simp [hlook] at hok
    | some w =>
      simp only [hlook, Except.ok.injEq] at hok
      exact ⟨name, by rw [hlook, hok]⟩

theorem Machine.Fit.fetchKey (hm : m.Fit P) {s : ScopeId} {key default v : Value}
    (hdefault : default.Fits P m.heap.size) (hok : m.heap.fetchKey s key default = .ok v) :
    v.Fits P m.heap.size := by
  rcases Heap.fetchKey_ok hok with rfl | ⟨name, hname⟩
  · exact hdefault
  · exact hm.lookup? hname

theorem Machine.Fit.lookupKey (hm : m.Fit P) {s : ScopeId} {key v : Value} {pos : Option Nat}
    (hok : m.heap.lookupKey s key pos = .ok v) : v.Fits P m.heap.size := by
  obtain ⟨name, hname⟩ := Heap.lookupKey_ok hok
  exact hm.lookup? hname

namespace Toolbox

theorem obeys_updateHeap {f : Heap → Except Fault Heap} (hnull : P.atom .null)
    (hok : ∀ h', f m.heap = .ok h' → Steps P added m { m with heap := h' })
    (herror : ∀ e, f m.heap = .error e → P.fault e) :
    Exec.Obeys P added (updateHeap f) (Value.Stands P) m := by
  refine Exec.obeys_heap.bind ?_
  rintro _ m' - ⟨rfl, rfl⟩
  refine Exec.Obeys.bind (Q := fun h m₁ => f m'.heap = .ok h ∧ m₁ = m')
    (Exec.obeys_ofFault (fun h hh => ⟨hh, rfl⟩) herror) ?_
  rintro h m₁ - ⟨hh, rfl⟩
  refine Exec.Obeys.bind (Q := fun _ _ => True) (.modifyGet (fun _ => hok h hh) trivial) ?_
  exact fun _ _ _ _ => .pure hnull

/-- The running total is no matter of scopes. -/
theorem obeys_addAll (hatom : ∀ v, P.atom v) (hfault : ∀ f, P.fault f) (ns : List Numeric) :
    Exec.Obeys P added (addAll ns) (Value.Stands P) m := by
  induction ns generalizing m with
  | nil =>
    refine Exec.obeys_get.bind fun a m₁ _ _ => .pure ?_
    cases a.total <;> exact hatom _
  | cons n ns ih =>
    refine Exec.obeys_get.bind fun a m₁ _ _ => ?_
    refine Exec.Obeys.bind (Q := fun _ _ => True)
      (Exec.obeys_ofFault (fun _ _ => trivial) fun f _ => hfault f) fun total m₂ _ _ => ?_
    refine Exec.Obeys.bind (Q := fun _ _ => True) ?_ fun _ m₃ _ _ => ih
    exact .note rfl (fun _ h => h) rfl trivial

/-! ### The natives by what they work on -/

theorem obeys_onScopes {code : Native} (hatom : ∀ v, P.atom v) (hfault : ∀ f, P.fault f)
    (hr : r.Fits P m.heap.size) (hcode : code.addsNames = true → P.binding) :
    Exec.Obeys P (P.Fresh m.heap.size) (onScopes code r) (Value.Stands P) m := by
  refine Exec.obeys_heap.bind ?_
  rintro _ m' - ⟨rfl, rfl⟩
  refine .of_fit fun hfit => ?_
  cases code with
  | names => exact .pure (hatom _)
  | localNames => exact .pure (hatom _)
  | boundary => exact .pure (hatom _)
  | has => exact .pure (hatom _)
  | define =>
    refine obeys_updateHeap (hatom _) (fun h hh => ?_) fun f _ => hfault f
    obtain ⟨name, rfl⟩ := Heap.defineKey_ok hh
    exact .single (.define _ name _ hr.scope (hr.arg (hatom _) 1) (.inl (.inl (hcode rfl))))
  | assign =>
    refine obeys_updateHeap (hatom _) (fun h hh => ?_) fun f _ => hfault f
    obtain ⟨name, rfl⟩ := Heap.assignKey_ok hh
    exact .single (.assign name hr.scope (.inl (hcode rfl)) (hr.arg (hatom _) 1))
  | fetch =>
    refine Exec.obeys_ofFault (fun v hv => ?_) fun f _ => hfault f
    exact hfit.fetchKey (hr.arg (hatom _) 1) hv
  | lookup =>
    refine Exec.obeys_ofStop (fun v hv => hfit.lookupKey hv) fun stop _ => ?_
    cases stop with
    | failure f => trivial
    | fault f => exact hfault f
  | _ => exact .pure (hatom _)

theorem scriptValue_stands {report : Report Value} (hatom : ∀ v, P.atom v)
    (h : report.Stands P m) : (scriptValue report).Stands P m := by
  rw [scriptValue]
  cases houtcome : report.outcome with
  | ok v => exact h v houtcome
  | error p => exact hatom _

theorem obeys_onCalls {code : Native} {reentry : Reentry} {least : Nat} (hatom : ∀ v, P.atom v)
    (hreentry : reentry.Obeys P least) (hm : least ≤ m.heap.size)
    (hr : r.Fits P m.heap.size) (hcode : code.addsNames = true → P.binding)
    (hscript : code = .script → globalScope < least) :
    Exec.Obeys P (P.Fresh m.heap.size) (onCalls reentry code r)
      (Value.Stands P) m := by
  have happlied : Exec.Obeys P (P.Fresh m.heap.size)
      (reentry.call (r.arg 0) (r.args.drop 1) r.scope) (Value.Stands P) m :=
    hreentry.call hm (hr.arg (hatom _) 0) (fun v hv => hr.args v (List.mem_of_mem_drop hv))
      hr.scope
  cases code with
  | apply => exact happlied
  | attempt =>
    refine happlied.tryCatch fun stop m₁ _ hstop => ?_
    cases stop with
    | failure f => exact .pure (hatom _)
    | fault f => exact .throw hstop
  | script =>
    have hglobal : globalScope < m.heap.size := Nat.lt_of_lt_of_le (hscript rfl) hm
    refine ((hreentry.script _ hm hglobal).widen fun t _ => .inl (hcode rfl)).bind ?_
    intro report m₁ _ hreport
    exact .pure (scriptValue_stands hatom hreport)
  | fail => exact Exec.obeys_fail _ _
  | failType => exact Exec.obeys_fail _ _
  | _ => exact .pure (hatom _)

theorem obeys_print (habsent : P.atom .absent) :
    Exec.Obeys P added (onValues .print r) (Value.Stands P) m :=
  (Exec.obeys_emit _ _).bind fun _ _ _ _ => .pure habsent

theorem obeys_printNames (habsent : P.atom .absent) :
    Exec.Obeys P added (onValues .printNames r) (Value.Stands P) m := by
  refine Exec.obeys_heap.bind fun h m₁ _ _ => ?_
  exact (Exec.obeys_emit _ _).bind fun _ _ _ _ => .pure habsent

theorem obeys_onValues {code : Native} (hatom : ∀ v, P.atom v) (hfault : ∀ f, P.fault f)
    (hr : r.Fits P m.heap.size) :
    Exec.Obeys P added (onValues code r) (Value.Stands P) m := by
  cases code with
  | print => exact obeys_print (hatom _)
  | printNames => exact obeys_printNames (hatom _)
  | emit => exact (Exec.obeys_emit _ _).bind fun _ _ _ _ => .pure (hatom _)
  | count => exact .pure (hatom _)
  | first => exact .pure (hr.arg (hatom _) 0)
  | constant =>
    refine .pure ?_
    cases hv : r.bound.head? with
    | none => exact hatom _
    | some v => exact hr.bound v (List.mem_of_head? hv)
  | add => exact obeys_addAll hatom hfault _
  | _ => exact .pure (hatom _)

end Toolbox

end

theorem toolbox_cases (reentry : Reentry) (code : Native) (r : Request) :
    toolbox reentry code r = Toolbox.onScopes code r ∨
      toolbox reentry code r = Toolbox.onCalls reentry code r ∨
      toolbox reentry code r = Toolbox.onValues code r := by
  cases code <;> simp [toolbox]

/-- **Every native of the toolbox keeps to its conduct**, if those that add names may bind and the one
that runs scripts has a scope to run them in. -/
theorem toolbox_obeys {natives : Native → Prop} {binding : Prop} {least : Nat}
    (hnames : ∀ code, natives code → code.addsNames = true → binding)
    (hscript : natives .script → globalScope < least) :
    toolbox.Obeys (.lenient natives binding) least := by
  intro reentry hreentry code r m hcode hm hr
  have hatom : ∀ v, (Policy.lenient natives binding).atom v := fun _ => trivial
  have hfault : ∀ f, (Policy.lenient natives binding).fault f := fun _ => trivial
  rcases toolbox_cases reentry code r with heq | heq | heq <;> rw [heq]
  · exact Toolbox.obeys_onScopes hatom hfault hr (hnames code hcode)
  · exact Toolbox.obeys_onCalls hatom hreentry hm hr (hnames code hcode) fun h => hscript (h ▸ hcode)
  · exact Toolbox.obeys_onValues hatom hfault hr

end Klex
