import Klex.Proofs.Host.Toolbox
import Klex.Proofs.Machine.Trait

/-!
# The evaluator and properties of values

* **`Reentry.Keeps`**, **`Host.Keeps`** — what a native may rely on, and what it has to keep to: **it
  binds and passes on values with the property only.**  It may give the mark of absence in any case, since
  the evaluator takes null for it.
* **`Evaluator.keeps`** — **the evaluator keeps to values with the property at every depth.**
* **`toolbox_keeps`** — so does every native of the toolbox.
-/

namespace Klex

variable {good : Value → Prop}

/-- A value with the property, or none. -/
def Value.AnyGood (good : Value → Prop) (v? : Option Value) : Prop := ∀ v, v? = some v → good v

/-- A report whose value, if it has one, has the property. -/
def Report.Good (good : Value → Prop) (r : Report Value) : Prop := ∀ v, r.outcome = .ok v → good v

/-! ### Natives -/

/-- What a native may rely on when it goes back to the evaluator. -/
structure Reentry.Keeps (good : Value → Prop) (r : Reentry) : Prop where
  call : ∀ {f : Value} {args : List Value} (s : ScopeId), good f → (∀ v ∈ args, good v) →
    Exec.Keeps good (r.call f args s) good
  script : ∀ source : String, Exec.Keeps good (r.script source) (Report.Good good)

/-- Natives bind and pass on values with the property. -/
def Host.Keeps (good : Value → Prop) (host : Host) : Prop :=
  ∀ reentry : Reentry, reentry.Keeps good → ∀ (id : Nat) (name : String) (discards : Bool)
    (code : Native) (bound args : List Value) (s : ScopeId),
    good (.native id name discards code bound) → (∀ v ∈ args, good v) →
      Exec.Keeps good (host reentry code ⟨s, args, bound⟩) fun v => good v.orNull

namespace Evaluator

/-- What a native may ask of the evaluator at a depth. -/
def reentry (host : Host) (depth : Nat) : Reentry :=
  ⟨fun f args s => call host depth f args s none, fun source => runScript host depth source⟩

theorem call_native (host : Host) (depth id : Nat) (name : String) (discards : Bool) (code : Native)
    (bound args : List Value) (s : ScopeId) (site : Option Nat) :
    call host (depth + 1) (.native id name discards code bound) args s site
      = callNative host (reentry host depth) discards code ⟨s, args, bound⟩ := by
  rw [call]
  rfl

/-- What the evaluator keeps to at a depth. -/
structure Keeps (good : Value → Prop) (host : Host) (depth : Nat) : Prop where
  evaluate : ∀ (e : Expr) (s : ScopeId), Exec.Keeps good (evaluate host depth e s) good
  execute : ∀ (stmt : Stmt) (s : ScopeId),
    Exec.Keeps good (execute host depth stmt s) (Value.AnyGood good)
  call : ∀ {f : Value} {args : List Value} (s : ScopeId) (site : Option Nat), good f →
    (∀ v ∈ args, good v) → Exec.Keeps good (call host depth f args s site) good
  script : ∀ source : String, Exec.Keeps good (runScript host depth source) (Report.Good good)

theorem Keeps.reentry {host : Host} {depth : Nat} (h : Keeps good host depth) :
    (Evaluator.reentry host depth).Keeps good :=
  ⟨fun s hf hargs => h.call s none hf hargs, h.script⟩

/-! ### Rows -/

theorem keeps_each {f : Expr → Exec Value} (hf : ∀ e, Exec.Keeps good (f e) good)
    (es : List Expr) : Exec.Keeps good (each f es) fun vs => ∀ v ∈ vs, good v := by
  induction es with
  | nil => exact .pure (by simp)
  | cons e es ih =>
    refine (hf e).bind fun v hv => ?_
    refine ih.bind fun vs hvs => .pure ?_
    exact List.forall_mem_cons.2 ⟨hv, hvs⟩

theorem keeps_untilReturn {run : Stmt → Exec (Option Value)}
    (hrun : ∀ stmt, Exec.Keeps good (run stmt) (Value.AnyGood good)) (body : List Stmt) :
    Exec.Keeps good (untilReturn run body) (Value.AnyGood good) := by
  induction body with
  | nil => exact .pure (by simp [Value.AnyGood])
  | cons stmt body ih =>
    refine (hrun stmt).bind fun v? hv => ?_
    cases v? with
    | some v => exact .pure hv
    | none => exact ih

theorem keeps_runStatements (hgood : Value.Trait good) {value : Expr → Exec Value}
    {run : Stmt → Exec (Option Value)} (hvalue : ∀ e, Exec.Keeps good (value e) good)
    (hrun : ∀ stmt, Exec.Keeps good (run stmt) (Value.AnyGood good)) {last : Value}
    (hlast : good last) (body : List Stmt) :
    Exec.Keeps good (runStatements value run last body) good := by
  induction body generalizing last with
  | nil => exact .pure hlast
  | cons stmt body ih =>
    cases stmt with
    | expr e => exact (hvalue e).bind fun v hv => ih hv
    | _ =>
      refine (hrun _).bind fun v? hv => ?_
      cases v? with
      | some v => exact .pure (hv v rfl)
      | none => exact ih hgood.null

/-! ### One level of the evaluator -/

variable {host : Host} {depth : Nat}

theorem keeps_operate (hgood : Value.Trait good) (pos : Nat) (op : String) (a b : Value) :
    Exec.Keeps good (operate pos op a b) good := by
  refine Exec.Keeps.bind (Q := Value.AnyGood good) (Exec.keeps_ofFault ?_) ?_
  · intro v? hv? v hv
    obtain ⟨l, rfl, -⟩ := applyOperator_ok (hv ▸ hv?)
    exact hgood.literal l
  · intro v? hv
    cases v? with
    | some v => exact .pure (hv v rfl)
    | none => exact Exec.keeps_fail _ _

theorem Keeps.evaluate_succ (hgood : Value.Trait good) (ih : Keeps good host depth) (e : Expr)
    (s : ScopeId) : Exec.Keeps good (Evaluator.evaluate host (depth + 1) e s) good := by
  unfold Evaluator.evaluate
  refine (Exec.keeps_enter _).bind fun _ _ => ?_
  cases e with
  | literal pos value => exact .pure (hgood.literal value)
  | name pos id =>
    refine Exec.keeps_heap.bind fun h hh => Exec.keeps_ofStop fun v hv => ?_
    rw [Heap.lookup] at hv
    cases hlook : h.lookup? s id with
    | none =>
      rw [hlook] at hv
      cases hv
    | some w =>
      rw [hlook] at hv
      exact Except.ok.inj hv ▸ hh.lookup? hlook
  | group pos inner => exact ih.evaluate inner s
  | negate pos operand => exact (ih.evaluate operand s).bind fun _ _ => .pure (hgood.bool _)
  | function pos params body => exact Exec.keeps_freshId.bind fun _ _ => .pure (hgood.closure ..)
  | binary pos op left right =>
    refine (ih.evaluate left s).bind fun a _ => ?_
    exact (ih.evaluate right s).bind fun b _ => keeps_operate hgood pos op a b
  | call pos callee args =>
    refine (ih.evaluate callee s).bind fun f hf => ?_
    by_cases hcallable : f.isCallable = true
    · rw [if_pos hcallable]
      refine (keeps_each (fun arg => ih.evaluate arg s) args).bind fun values hvalues => ?_
      refine (Exec.keeps_push hvalues).bind fun _ _ => ?_
      refine (ih.call s (some pos) hf hvalues).bind fun v hv => ?_
      exact Exec.keeps_pop.bind fun _ _ => .pure hv
    · rw [if_neg hcallable]
      exact Exec.keeps_fail _ _

theorem Keeps.execute_succ (ih : Keeps good host depth) (stmt : Stmt) (s : ScopeId) :
    Exec.Keeps good (Evaluator.execute host (depth + 1) stmt s) (Value.AnyGood good) := by
  have hnone : Value.AnyGood good none := by simp [Value.AnyGood]
  unfold Evaluator.execute
  refine (Exec.keeps_enter _).bind fun _ _ => ?_
  cases stmt with
  | expr e => exact (ih.evaluate e s).bind fun _ _ => .pure hnone
  | assign pos target e =>
    refine (ih.evaluate e s).bind fun v hv => ?_
    exact (Exec.keeps_assign s target hv).bind fun _ _ => .pure hnone
  | ret pos e =>
    refine (ih.evaluate e s).bind fun v hv => .pure fun w hw => ?_
    have hpresent : v = w := by
      cases v <;> simp only [Value.present?, Option.some.injEq, reduceCtorEq] at hw <;> exact hw
    exact hpresent ▸ hv
  | block pos body =>
    refine (Exec.keeps_alloc _ _).bind fun inner _ => ?_
    exact keeps_untilReturn (fun stmt => ih.execute stmt inner) body
  | cond pos test yes no =>
    refine (ih.evaluate test s).bind fun v _ => ?_
    by_cases hv : v.isTruthy = true
    · rw [if_pos hv]
      exact ih.execute yes s
    · rw [if_neg hv]
      cases no with
      | none => exact .pure hnone
      | some no => exact ih.execute no s

theorem keeps_callClosure (hgood : Value.Trait good)
    {run : Stmt → ScopeId → Exec (Option Value)}
    (hrun : ∀ stmt s, Exec.Keeps good (run stmt s) (Value.AnyGood good)) (params : List String)
    (body : Stmt) (home : ScopeId) {args : List Value} (site : Option Nat)
    (hargs : ∀ v ∈ args, good v) :
    Exec.Keeps good (callClosure run params body home args site) good := by
  rw [callClosure]
  by_cases hcount : params.length < args.length
  · rw [if_pos hcount]
    exact Exec.Keeps.bind (Q := fun _ => False) (Exec.keeps_fail _ _) fun _ h => h.elim
  · rw [if_neg hcount]
    refine (Exec.keeps_alloc _ _).bind fun s _ => ?_
    refine (Exec.keeps_defineAll s fun p hp => hargs p.2 (List.of_mem_zip hp).2).bind fun _ _ => ?_
    refine (hrun body s).bind fun v? hv => .pure ?_
    cases v? with
    | some v => exact hv v rfl
    | none => exact hgood.null

theorem Keeps.call_succ (hgood : Value.Trait good) (hhost : host.Keeps good)
    (ih : Keeps good host depth) {f : Value} {args : List Value} (s : ScopeId) (site : Option Nat)
    (hf : good f) (hargs : ∀ v ∈ args, good v) :
    Exec.Keeps good (Evaluator.call host (depth + 1) f args s site) good := by
  cases f with
  | native id name discards code bound =>
    rw [call_native]
    refine (hhost _ ih.reentry id name discards code bound args s hf hargs).bind fun v hv => ?_
    cases discards with
    | true => exact .pure hgood.null
    | false => exact .pure hv
  | closure id params body home =>
    exact keeps_callClosure hgood ih.execute params body home site hargs
  | null => exact Exec.keeps_fail _ _
  | bool b => exact Exec.keeps_fail _ _
  | int n => exact Exec.keeps_fail _ _
  | float x => exact Exec.keeps_fail _ _
  | text t => exact Exec.keeps_fail _ _
  | list id items => exact Exec.keeps_fail _ _
  | absent => exact Exec.keeps_fail _ _

theorem Keeps.program (hgood : Value.Trait good) (h : Keeps good host depth) (p : Program)
    (s : ScopeId) : Exec.Keeps good (runProgram host depth p s) good :=
  keeps_runStatements hgood (fun e => h.evaluate e s) (fun stmt => h.execute stmt s) hgood.null
    p.statements

theorem Keeps.script_succ (hgood : Value.Trait good) (ih : Keeps good host depth)
    (source : String) :
    Exec.Keeps good (runScript host (depth + 1) source) (Report.Good good) := by
  rw [runScript]
  refine Exec.keeps_clear.bind fun _ _ => Exec.Keeps.tryCatch ?_ fun stop => ?_
  · refine Exec.Keeps.bind (Q := good) ?_ fun v hv => ?_
    · refine Exec.Keeps.bind (Q := fun _ => True) (Exec.keeps_ofStop fun _ _ => trivial) ?_
      exact fun p _ => ih.program hgood p globalScope
    · refine Exec.keeps_get.bind fun _ _ => .pure fun w hw => ?_
      exact (Except.ok.inj hw) ▸ hv
  · cases stop with
    | fault f => exact .throw _
    | failure f =>
      refine Exec.keeps_get.bind fun _ _ => ?_
      refine (Exec.keeps_emit _ _).bind fun _ _ => ?_
      refine Exec.keeps_get.bind fun _ _ => .pure fun v hv => ?_
      exact absurd hv (by simp)

/-- **The evaluator keeps to values with the property at every depth.** -/
theorem keeps (hgood : Value.Trait good) (hhost : host.Keeps good) (depth : Nat) :
    Keeps good host depth := by
  induction depth with
  | zero =>
    refine ⟨?_, ?_, ?_, ?_⟩
    · intro e s
      rw [Evaluator.evaluate]
      exact .throw _
    · intro stmt s
      rw [Evaluator.execute]
      exact .throw _
    · intro f args s site _ _
      rw [Evaluator.call]
      exact .throw _
    · intro source
      rw [runScript]
      exact .throw _
  | succ depth ih =>
    exact ⟨ih.evaluate_succ hgood, ih.execute_succ, ih.call_succ hgood hhost,
      ih.script_succ hgood⟩

end Evaluator

/-! ### The toolbox -/

namespace Toolbox

variable {r : Request}

theorem arg_good (hgood : Value.Trait good) (hargs : ∀ v ∈ r.args, good v) (i : Nat) :
    good (r.arg i) := by
  rw [Request.arg]
  cases hv : r.args[i]? with
  | none => exact hgood.null
  | some v => exact hargs v (List.mem_of_getElem? hv)

theorem orNull_good (hgood : Value.Trait good) {v : Value} (hv : good v) : good v.orNull := by
  cases v <;> first | exact hv | exact hgood.null

theorem keeps_updateHeap (hgood : Value.Trait good) {f : Heap → Except Fault Heap}
    (hf : ∀ h h', h.All good → f h = .ok h' → h'.All good) :
    Exec.Keeps good (updateHeap f) fun v => good v.orNull := by
  refine Exec.keeps_heap.bind fun h hh => ?_
  refine Exec.Keeps.bind (Q := Heap.All good) (Exec.keeps_ofFault fun h' => hf h h' hh) ?_
  exact fun h' hh' => (Exec.keeps_setHeap hh').bind fun _ _ => .pure hgood.null

theorem keeps_addAll (hgood : Value.Trait good) (ns : List Numeric) :
    Exec.Keeps good (addAll ns) fun v => good v.orNull := by
  induction ns with
  | nil =>
    refine Exec.keeps_get.bind fun m _ => .pure ?_
    cases m.total with
    | int n => exact hgood.literal (.int n)
    | float x => exact hgood.literal (.float x)
  | cons n ns ih =>
    refine Exec.keeps_get.bind fun m _ => ?_
    refine Exec.Keeps.bind (Q := fun _ => True) (Exec.keeps_ofFault fun _ _ => trivial) ?_
    intro total _
    refine Exec.Keeps.bind (Q := fun _ => True) ?_ fun _ _ => ih
    exact .modifyGet fun _ hm => ⟨⟨hm.bound, hm.passed⟩, trivial⟩

theorem keeps_onScopes (hgood : Value.Trait good) (hargs : ∀ v ∈ r.args, good v) (code : Native) :
    Exec.Keeps good (onScopes code r) fun v => good v.orNull := by
  have harg := arg_good hgood hargs
  refine Exec.keeps_heap.bind fun h hh => ?_
  cases code with
  | names => exact .pure (hgood.literal (.text _))
  | localNames => exact .pure (hgood.literal (.text _))
  | boundary => exact .pure (hgood.bool _)
  | has => exact .pure (hgood.bool _)
  | define =>
    refine keeps_updateHeap hgood fun h h' hh hdefined => ?_
    obtain ⟨name, rfl⟩ := Heap.defineKey_ok hdefined
    exact hh.define _ name (harg 1)
  | assign =>
    refine keeps_updateHeap hgood fun h h' hh hassigned => ?_
    obtain ⟨name, rfl⟩ := Heap.assignKey_ok hassigned
    exact hh.define _ name (harg 1)
  | fetch =>
    refine Exec.keeps_ofFault fun v hv => orNull_good hgood ?_
    rcases Heap.fetchKey_ok hv with rfl | ⟨name, hname⟩
    · exact harg 1
    · exact hh.lookup? hname
  | lookup =>
    refine Exec.keeps_ofStop fun v hv => orNull_good hgood ?_
    obtain ⟨name, hname⟩ := Heap.lookupKey_ok hv
    exact hh.lookup? hname
  | _ => exact .pure hgood.null

theorem keeps_onCalls (hgood : Value.Trait good) (hargs : ∀ v ∈ r.args, good v)
    {reentry : Reentry} (hreentry : reentry.Keeps good) (code : Native) :
    Exec.Keeps good (onCalls reentry code r) fun v => good v.orNull := by
  have happlied : Exec.Keeps good (reentry.call (r.arg 0) (r.args.drop 1) r.scope)
      fun v => good v.orNull := by
    have hdrop : ∀ v ∈ r.args.drop 1, good v := fun v hv => hargs v (List.mem_of_mem_drop hv)
    have hcall := hreentry.call r.scope (arg_good hgood hargs 0) hdrop
    exact hcall.imp fun v hv => orNull_good hgood hv
  cases code with
  | apply => exact happlied
  | attempt =>
    refine happlied.tryCatch fun stop => ?_
    cases stop with
    | failure f => exact .pure (hgood.literal (.text _))
    | fault f => exact .throw _
  | script =>
    refine (hreentry.script _).bind fun report hreport => .pure ?_
    rw [scriptValue]
    cases houtcome : report.outcome with
    | ok v => exact orNull_good hgood (hreport v houtcome)
    | error p => exact hgood.literal (.text _)
  | fail => exact Exec.keeps_fail _ _
  | failType => exact Exec.keeps_fail _ _
  | _ => exact .pure hgood.null

theorem keeps_onValues (hgood : Value.Trait good) (hargs : ∀ v ∈ r.args, good v)
    (hbound : ∀ v ∈ r.bound, good v.orNull) (code : Native) :
    Exec.Keeps good (onValues code r) fun v => good v.orNull := by
  cases code with
  | print => exact (Exec.keeps_emit _ _).bind fun _ _ => .pure hgood.null
  | printNames =>
    exact Exec.keeps_heap.bind fun _ _ => (Exec.keeps_emit _ _).bind fun _ _ => .pure hgood.null
  | emit => exact (Exec.keeps_emit _ _).bind fun _ _ => .pure hgood.null
  | count => exact .pure (hgood.literal (.int _))
  | first => exact .pure (orNull_good hgood (arg_good hgood hargs 0))
  | constant =>
    refine .pure ?_
    cases hv : r.bound.head? with
    | none => exact hgood.null
    | some v => exact hbound v (List.mem_of_head? hv)
  | add => exact keeps_addAll hgood _
  | _ => exact .pure hgood.null

end Toolbox

/-- **Every native of the toolbox keeps to values with the property**, if what a native comes with has
it or is the mark of absence. -/
theorem toolbox_keeps (hgood : Value.Trait good)
    (hbound : ∀ id name discards code bound, good (.native id name discards code bound) →
      ∀ v ∈ bound, good v.orNull) : toolbox.Keeps good := by
  intro reentry hreentry id name discards code bound args s hnative hargs
  rcases toolbox_cases reentry code ⟨s, args, bound⟩ with heq | heq | heq <;> rw [heq]
  · exact Toolbox.keeps_onScopes hgood hargs code
  · exact Toolbox.keeps_onCalls hgood hargs hreentry code
  · exact Toolbox.keeps_onValues hgood hargs (hbound _ _ _ _ _ hnative) code

end Klex
