import Klex.Proofs.Evaluator.Calls

/-!
# What a failure is blamed on

* **`Failure.Blames`** — a failure points to a node of a tree and says what is wrong with it: a name that
  is not bound, an operator that is not defined, a call of something else than a function or with too many
  arguments.
* **`Value.Known`** — the functions in a value have bodies of known nodes, and its natives are builtins.
* **`Exec.Blames`** — **a computation that fails is blamed on a node of its own, or of a function that was
  called and has not returned**; and no function gets into the machine whose body is not known.
* **`Evaluator.blames`** — the evaluator does so at every depth.

A function keeps the tree that it was made of.  What a failure is blamed on need not stand in the program
that runs, therefore, but may stand in one that ran before.
-/

namespace Klex

open Evaluator

/-- The failure points to the node, and the node is of the sort that fails so. -/
def Failure.Blames (f : Failure) (x : Expr) : Prop :=
  f.pos = some x.pos ∧ match f.cause, x with
    | .unbound name, .name _ id => id = name
    | .operatorUndefined op _ _, .binary _ op' _ _ => op' = op
    | .notCallable _, .call _ _ _ => True
    | .tooManyArguments params given, .call _ _ args => args.length = given ∧ params.length < given
    | _, _ => False

/-! ### Values with known bodies -/

/-- The nodes that a call of the value runs. -/
def Value.nodes : Value → List Expr
  | .closure _ _ body _ => body.nodes
  | _ => []

/-- The functions in the value are made of known nodes, and its natives are builtins. -/
structure Value.Known (known : Expr → Prop) (v : Value) : Prop where
  natives : v.UsesOnly Native.IsBuiltin
  bodies : ∀ w ∈ v.parts, ∀ x ∈ w.nodes, known x

variable {known : Expr → Prop}

namespace Value

theorem Known.nodes {v : Value} (h : v.Known known) : ∀ x ∈ v.nodes, known x := by
  cases v with
  | closure id params body s => exact h.bodies _ List.mem_cons_self
  | _ => exact fun x hx => absurd hx List.not_mem_nil

theorem Known.mono {more : Expr → Prop} {v : Value} (h : v.Known known)
    (hmore : ∀ x, known x → more x) : v.Known more :=
  ⟨h.natives, fun w hw x hx => hmore x (h.bodies w hw x hx)⟩

theorem known_ofLiteral (l : Literal) : (Value.ofLiteral l).Known known := by
  cases l <;> exact ⟨by simp [UsesOnly, ofLiteral, parts], by simp [ofLiteral, parts, Value.nodes]⟩

theorem known_null : Value.null.Known known := known_ofLiteral .null

theorem known_bool (b : Bool) : (Value.bool b).Known known := known_ofLiteral (.bool b)

theorem known_closure {id : Nat} {params : List String} {body : Stmt} {s : ScopeId}
    (h : ∀ x ∈ body.nodes, known x) : (Value.closure id params body s).Known known :=
  ⟨by simp [UsesOnly, parts], by simpa [parts, Value.nodes] using h⟩

theorem Known.present? {v w : Value} (h : v.Known known) (hw : v.present? = some w) :
    w.Known known := by
  cases v <;> simp only [Value.present?, Option.some.injEq, reduceCtorEq] at hw <;> exact hw ▸ h

end Value

/-! ### Computations -/

/-- What a run that started from a machine comes to: it has closed the calls that it opened, or its failure
is blamed on one of the given nodes or on a node of a function among the calls in progress. -/
def Machine.Blamed {α : Type} (known : Expr → Prop) (own : List Expr) (Q : α → Prop) (m : Machine) :
    EStateM.Result Stop Machine α → Prop
  | .ok a m' => m'.All (Value.Known known) ∧ m'.frames = m.frames ∧ Q a
  | .error (.failure f) m' => m'.All (Value.Known known) ∧ m.frames ⊆ m'.frames ∧
      ∃ x, f.Blames x ∧ known x ∧ (x ∈ own ∨ ∃ frame ∈ m'.frames, x ∈ frame.func.nodes)
  | .error (.fault _) m' => m'.All (Value.Known known)

theorem Machine.Blamed.after {α : Type} {own : List Expr} {Q : α → Prop} {m m₁ : Machine}
    {r : EStateM.Result Stop Machine α} (h : m₁.Blamed known own Q r) (hm₁ : m₁.frames = m.frames) :
    m.Blamed known own Q r := by
  cases r with
  | ok a m' => exact ⟨h.1, h.2.1.trans hm₁, h.2.2⟩
  | error stop m' =>
    cases stop with
    | failure f => exact ⟨h.1, hm₁ ▸ h.2.1, h.2.2⟩
    | fault f => exact h

/-- A failure of the computation is blamed on one of the nodes, or on a function that was called. -/
def Exec.Blames {α : Type} (known : Expr → Prop) (own : List Expr) (x : Exec α) (Q : α → Prop) : Prop :=
  ∀ m : Machine, m.All (Value.Known known) → m.Blamed known own Q (x.run m)

namespace Exec.Blames

variable {α β : Type} {own more : List Expr} {x : Exec α} {f : α → Exec β} {Q : α → Prop}
  {R : β → Prop}

theorem pure {a : α} (h : Q a) : Blames known own (pure a) Q := fun _ hm => ⟨hm, rfl, h⟩

theorem fault (f : Fault) : Blames known own (Exec.fault f : Exec α) Q := fun _ hm => hm

theorem fail {cause : Cause} {pos : Option Nat} {e : Expr} (h : Failure.Blames ⟨cause, pos⟩ e)
    (hknown : known e) (hown : e ∈ own) : Blames known own (Exec.fail cause pos : Exec α) Q :=
  fun _ hm => ⟨hm, List.Subset.refl _, e, h, hknown, .inl hown⟩

/-- An operation of the machine that neither fails nor touches the calls. -/
theorem of_ok (hkeeps : Exec.Keeps (Value.Known known) x Q) (hsteady : x.Steady)
    (hok : ∀ m, ∃ a m', x.run m = .ok a m') : Blames known own x Q := by
  intro m hm
  obtain ⟨a, m', hrun⟩ := hok m
  obtain ⟨hm', ha⟩ := hkeeps.ok hm hrun
  rw [hrun]
  exact ⟨hm', hsteady.ok hrun, ha⟩

theorem widen (h : Blames known own x Q) (hmore : own ⊆ more) : Blames known more x Q := by
  intro m hm
  have hx := h m hm
  cases hrun : x.run m with
  | ok a m' =>
    rw [hrun] at hx
    exact hx
  | error stop m' =>
    rw [hrun] at hx
    cases stop with
    | fault f => exact hx
    | failure f =>
      obtain ⟨hm', hframes, e, he, hknown, hplace⟩ := hx
      exact ⟨hm', hframes, e, he, hknown, hplace.imp_left fun h => hmore h⟩

theorem keeps (h : Blames known own x Q) : Exec.Keeps (Value.Known known) x Q := by
  intro m hm
  have hx := h m hm
  cases hrun : x.run m with
  | ok a m' =>
    rw [hrun] at hx
    exact ⟨hx.1, hx.2.2⟩
  | error stop m' =>
    rw [hrun] at hx
    cases stop with
    | failure f => exact hx.1
    | fault f => exact hx

/-- One computation after the other. -/
theorem bind (hx : Blames known own x Q) (hf : ∀ a, Q a → Blames known own (f a) R) :
    Blames known own (x >>= f) R := by
  intro m hm
  have hxm := hx m hm
  cases hrun : x.run m with
  | error stop m₁ =>
    rw [hrun] at hxm
    rw [Exec.run_bind_error hrun]
    cases stop <;> exact hxm
  | ok a m₁ =>
    rw [hrun] at hxm
    obtain ⟨hm₁, hframes, ha⟩ := hxm
    rw [Exec.run_bind_ok hrun]
    exact (hf a ha m₁ hm₁).after hframes

end Exec.Blames

namespace Exec

variable {α : Type} {own : List Expr} {Q : α → Prop}

theorem blames_enter (pos : Option Nat) : Blames known own (enter pos) fun _ => True :=
  .of_ok (keeps_enter pos) (fun _ => rfl) fun _ => ⟨_, _, rfl⟩

theorem blames_heap : Blames known own heap (Heap.All (Value.Known known)) :=
  .of_ok keeps_heap steady_heap fun _ => ⟨_, _, rfl⟩

theorem blames_freshId : Blames known own freshId fun _ => True :=
  .of_ok keeps_freshId steady_freshId fun _ => ⟨_, _, rfl⟩

theorem blames_emit (topic message : String) : Blames known own (emit topic message) fun _ => True :=
  .of_ok (keeps_emit topic message) (steady_emit topic message) fun _ => ⟨_, _, rfl⟩

theorem blames_alloc (parent : Option ScopeId) (boundary : Bool) :
    Blames known own (alloc parent boundary) fun _ => True :=
  .of_ok (keeps_alloc parent boundary) (steady_alloc parent boundary) fun _ => ⟨_, _, rfl⟩

theorem blames_defineAll (s : ScopeId) {pairs : List (String × Value)}
    (hpairs : ∀ p ∈ pairs, p.2.Known known) :
    Blames known own (defineAll s pairs) fun _ => True :=
  .of_ok (keeps_defineAll s hpairs) (fun _ => rfl) fun _ => ⟨_, _, rfl⟩

theorem blames_assign (s : ScopeId) (name : String) {v : Value} (hv : v.Known known) :
    Blames known own (assign s name v) fun _ => True :=
  .of_ok (keeps_assign s name hv) (steady_assign s name v) fun _ => ⟨_, _, rfl⟩

/-- Inside a call that is put in progress, the nodes of the function may be blamed as well. -/
theorem blames_opened {frame : Frame} {x : Exec α} (hargs : ∀ v ∈ frame.args, v.Known known)
    (hx : Blames known (own ++ frame.func.nodes) x Q) :
    Blames known own (do push frame; let a ← x; pop; return a) Q := by
  intro m hm
  have hopen : ((push frame).after m).All (Value.Known known) := (keeps_push hargs).after hm
  have hpush : (push frame).run m = .ok () ((push frame).after m) := rfl
  rw [run_bind_ok hpush]
  have hxm := hx _ hopen
  cases hrun : x.run ((push frame).after m) with
  | ok a m₁ =>
    rw [hrun] at hxm
    obtain ⟨hm₁, hframes, ha⟩ := hxm
    rw [run_bind_ok hrun]
    refine ⟨keeps_pop.after hm₁, ?_, ha⟩
    show m₁.frames.dropLast = m.frames
    rw [hframes]
    exact List.dropLast_concat
  | error stop m₁ =>
    rw [hrun] at hxm
    rw [run_bind_error hrun]
    cases stop with
    | fault f => exact hxm
    | failure f =>
      obtain ⟨hm₁, hframes, e, he, hknown, hplace⟩ := hxm
      have hframe : frame ∈ m₁.frames := hframes (List.mem_append_right _ List.mem_cons_self)
      refine ⟨hm₁, fun g hg => hframes (List.mem_append_left _ hg), e, he, hknown, ?_⟩
      rcases hplace with hown | hcalled
      · rcases List.mem_append.1 hown with hown | hbody
        · exact .inl hown
        · exact .inr ⟨frame, hframe, hbody⟩
      · exact .inr hcalled

end Exec

/-! ### One level of the evaluator -/

theorem Expr.mem_nodes (e : Expr) : e ∈ e.nodes := by
  cases e <;> exact List.mem_cons_self

theorem Expr.nodes_subset_nodesAll {e : Expr} {es : List Expr} (h : e ∈ es) :
    e.nodes ⊆ Expr.nodesAll es := by
  induction es with
  | nil => exact absurd h List.not_mem_nil
  | cons e' es ih =>
    rw [Expr.nodesAll]
    rcases List.mem_cons.1 h with rfl | h
    · exact List.subset_append_left _ _
    · exact List.Subset.trans (ih h) (List.subset_append_right _ _)

theorem Stmt.nodes_subset_nodesAll {stmt : Stmt} {body : List Stmt} (h : stmt ∈ body) :
    stmt.nodes ⊆ Stmt.nodesAll body := by
  induction body with
  | nil => exact absurd h List.not_mem_nil
  | cons stmt' body ih =>
    rw [Stmt.nodesAll]
    rcases List.mem_cons.1 h with rfl | h
    · exact List.subset_append_left _ _
    · exact List.Subset.trans (ih h) (List.subset_append_right _ _)

/-- The builtins do not fail. -/
theorem toolbox_blames {code : Native} (hcode : code.IsBuiltin) (reentry : Reentry) (r : Request)
    {own : List Expr} :
    Exec.Blames known own (toolbox reentry code r) fun v => v.orNull.Known known := by
  rcases hcode with rfl | rfl
  · exact (Exec.blames_emit _ _).bind fun _ _ => .pure Value.known_null
  · refine Exec.blames_heap.bind fun _ _ => ?_
    exact (Exec.blames_emit _ _).bind fun _ _ => .pure Value.known_null

namespace Evaluator

/-- What is blamed for failures at a depth.  A call is blamed on the expression that calls. -/
structure Blames (known : Expr → Prop) (depth : Nat) : Prop where
  evaluate : ∀ (e : Expr) (s : ScopeId), (∀ x ∈ e.nodes, known x) →
    Exec.Blames known e.nodes (evaluate toolbox depth e s) (Value.Known known)
  execute : ∀ (stmt : Stmt) (s : ScopeId), (∀ x ∈ stmt.nodes, known x) →
    Exec.Blames known stmt.nodes (execute toolbox depth stmt s) (Value.AnyGood (Value.Known known))
  call : ∀ {f : Value} {values : List Value} {pos : Nat} {callee : Expr} {args : List Expr}
    (s : ScopeId), f.Known known → (∀ v ∈ values, v.Known known) →
    known (.call pos callee args) → args.length = values.length →
    Exec.Blames known (.call pos callee args :: f.nodes) (call toolbox depth f values s (some pos))
      (Value.Known known)

/-! ### Rows -/

theorem blames_each {f : Expr → Exec Value} {own : List Expr} {es : List Expr}
    (hf : ∀ e ∈ es, Exec.Blames known own (f e) (Value.Known known)) :
    Exec.Blames known own (each f es) fun vs => (∀ v ∈ vs, v.Known known) ∧ es.length = vs.length := by
  induction es with
  | nil => exact .pure ⟨by simp, rfl⟩
  | cons e es ih =>
    obtain ⟨he, hes⟩ := List.forall_mem_cons.1 hf
    refine he.bind fun v hv => ?_
    refine (ih hes).bind fun vs hvs => .pure ?_
    exact ⟨List.forall_mem_cons.2 ⟨hv, hvs.1⟩, congrArg (· + 1) hvs.2⟩

theorem blames_untilReturn {run : Stmt → Exec (Option Value)} {own : List Expr} {body : List Stmt}
    (hrun : ∀ stmt ∈ body, Exec.Blames known own (run stmt) (Value.AnyGood (Value.Known known))) :
    Exec.Blames known own (untilReturn run body) (Value.AnyGood (Value.Known known)) := by
  induction body with
  | nil => exact .pure (by simp [Value.AnyGood])
  | cons stmt body ih =>
    obtain ⟨hstmt, hbody⟩ := List.forall_mem_cons.1 hrun
    refine hstmt.bind fun v? hv => ?_
    cases v? with
    | some v => exact .pure hv
    | none => exact ih hbody

/-! ### The parts of the evaluator -/

variable {depth : Nat}

theorem blames_operate {pos : Nat} {op : String} {left right : Expr}
    (hknown : known (.binary pos op left right)) (a b : Value) {own : List Expr}
    (hown : Expr.binary pos op left right ∈ own) :
    Exec.Blames known own (operate pos op a b) (Value.Known known) := by
  rw [operate]
  cases hresult : applyOperator op a b with
  | error f => exact Exec.Blames.bind (Q := fun _ => False) (.fault f) fun _ h => h.elim
  | ok v? =>
    cases v? with
    | none => exact .fail ⟨rfl, rfl⟩ hknown hown
    | some v =>
      obtain ⟨l, rfl, -⟩ := applyOperator_ok hresult
      exact .pure (Value.known_ofLiteral l)

theorem Blames.evaluate_succ (ih : Blames known depth) (e : Expr) (s : ScopeId)
    (he : ∀ x ∈ e.nodes, known x) :
    Exec.Blames known e.nodes (Evaluator.evaluate toolbox (depth + 1) e s) (Value.Known known) := by
  have hself := he e e.mem_nodes
  unfold Evaluator.evaluate
  refine (Exec.blames_enter _).bind fun _ _ => ?_
  cases e with
  | literal pos value => exact .pure (Value.known_ofLiteral value)
  | name pos id =>
    refine Exec.blames_heap.bind fun h hh => ?_
    rw [Heap.lookup]
    cases hlook : h.lookup? s id with
    | none => exact .fail ⟨rfl, rfl⟩ hself List.mem_cons_self
    | some v => exact .pure (hh.lookup? hlook)
  | group pos inner =>
    have hinner : inner.nodes ⊆ (Expr.group pos inner).nodes := List.subset_cons_self _ _
    exact (ih.evaluate inner s fun x hx => he x (hinner hx)).widen hinner
  | negate pos operand =>
    have hoperand : operand.nodes ⊆ (Expr.negate pos operand).nodes := List.subset_cons_self _ _
    refine ((ih.evaluate operand s fun x hx => he x (hoperand hx)).widen hoperand).bind ?_
    exact fun _ _ => .pure (Value.known_bool _)
  | function pos params body =>
    refine Exec.blames_freshId.bind fun _ _ => .pure (Value.known_closure fun x hx => ?_)
    exact he x (List.mem_cons_of_mem _ hx)
  | binary pos op left right =>
    have hleft : left.nodes ⊆ (Expr.binary pos op left right).nodes :=
      List.subset_cons_of_subset _ (List.subset_append_left _ _)
    have hright : right.nodes ⊆ (Expr.binary pos op left right).nodes :=
      List.subset_cons_of_subset _ (List.subset_append_right _ _)
    refine ((ih.evaluate left s fun x hx => he x (hleft hx)).widen hleft).bind fun a _ => ?_
    refine ((ih.evaluate right s fun x hx => he x (hright hx)).widen hright).bind fun b _ => ?_
    exact blames_operate hself a b List.mem_cons_self
  | call pos callee args =>
    have hcallee : callee.nodes ⊆ (Expr.call pos callee args).nodes :=
      List.subset_cons_of_subset _ (List.subset_append_left _ _)
    have hargs : ∀ arg ∈ args, arg.nodes ⊆ (Expr.call pos callee args).nodes := fun arg harg =>
      List.subset_cons_of_subset _
        (List.Subset.trans (Expr.nodes_subset_nodesAll harg) (List.subset_append_right _ _))
    refine ((ih.evaluate callee s fun x hx => he x (hcallee hx)).widen hcallee).bind fun f hf => ?_
    by_cases hcallable : f.isCallable = true
    · rw [if_pos hcallable]
      refine (blames_each fun arg harg =>
        (ih.evaluate arg s fun x hx => he x (hargs arg harg hx)).widen (hargs arg harg)).bind ?_
      rintro values ⟨hvalues, hcount⟩
      -- too many arguments are blamed on the call, and all else on the function that it opens
      refine Exec.blames_opened hvalues ((ih.call s hf hvalues hself hcount).widen ?_)
      rintro x (_ | ⟨_, hx⟩)
      · exact List.mem_append_left _ List.mem_cons_self
      · exact List.mem_append_right _ hx
    · rw [if_neg hcallable]
      exact .fail ⟨rfl, trivial⟩ hself List.mem_cons_self

theorem Blames.execute_succ (ih : Blames known depth) (stmt : Stmt) (s : ScopeId)
    (hstmt : ∀ x ∈ stmt.nodes, known x) :
    Exec.Blames known stmt.nodes (Evaluator.execute toolbox (depth + 1) stmt s)
      (Value.AnyGood (Value.Known known)) := by
  have hnone : Value.AnyGood (Value.Known known) none := by simp [Value.AnyGood]
  unfold Evaluator.execute
  refine (Exec.blames_enter _).bind fun _ _ => ?_
  cases stmt with
  | expr e => exact (ih.evaluate e s hstmt).bind fun _ _ => .pure hnone
  | assign pos target e =>
    refine (ih.evaluate e s hstmt).bind fun v hv => ?_
    exact (Exec.blames_assign s target hv).bind fun _ _ => .pure hnone
  | ret pos e => exact (ih.evaluate e s hstmt).bind fun v hv => .pure fun w hw => hv.present? hw
  | block pos body =>
    refine (Exec.blames_alloc _ _).bind fun inner _ => blames_untilReturn fun stmt hmem => ?_
    have hsub : stmt.nodes ⊆ (Stmt.block pos body).nodes := Stmt.nodes_subset_nodesAll hmem
    exact (ih.execute stmt inner fun x hx => hstmt x (hsub hx)).widen hsub
  | cond pos test yes no =>
    have htest : test.nodes ⊆ (Stmt.cond pos test yes no).nodes := List.subset_append_left _ _
    have hyes : yes.nodes ⊆ (Stmt.cond pos test yes no).nodes :=
      List.Subset.trans (List.subset_append_left _ _) (List.subset_append_right _ _)
    have hno : Stmt.nodesElse no ⊆ (Stmt.cond pos test yes no).nodes :=
      List.Subset.trans (List.subset_append_right _ _) (List.subset_append_right _ _)
    refine ((ih.evaluate test s fun x hx => hstmt x (htest hx)).widen htest).bind fun v _ => ?_
    by_cases hv : v.isTruthy = true
    · rw [if_pos hv]
      exact (ih.execute yes s fun x hx => hstmt x (hyes hx)).widen hyes
    · rw [if_neg hv]
      cases no with
      | none => exact .pure hnone
      | some no => exact (ih.execute no s fun x hx => hstmt x (hno hx)).widen hno

theorem Blames.call_succ (ih : Blames known depth) {f : Value} {values : List Value} {pos : Nat}
    {callee : Expr} {args : List Expr} (s : ScopeId) (hf : f.Known known)
    (hvalues : ∀ v ∈ values, v.Known known) (hknown : known (.call pos callee args))
    (hcount : args.length = values.length) :
    Exec.Blames known (.call pos callee args :: f.nodes)
      (Evaluator.call toolbox (depth + 1) f values s (some pos)) (Value.Known known) := by
  cases f with
  | native id name discards code bound =>
    have hcode : code.IsBuiltin := hf.natives id name discards code bound List.mem_cons_self
    rw [call_native]
    refine (toolbox_blames hcode _ _).bind fun v hv => ?_
    cases discards with
    | true => exact .pure Value.known_null
    | false => exact .pure hv
  | closure id params body home =>
    rw [Evaluator.call, callClosure]
    by_cases hmany : params.length < values.length
    · rw [if_pos hmany]
      have hblames : Failure.Blames ⟨.tooManyArguments params values.length, some pos⟩
          (.call pos callee args) := ⟨rfl, hcount, hmany⟩
      refine Exec.Blames.bind (Q := fun _ => False) ?_ fun _ h => h.elim
      exact .fail hblames hknown List.mem_cons_self
    · rw [if_neg hmany]
      refine (Exec.blames_alloc _ _).bind fun inner _ => ?_
      refine (Exec.blames_defineAll inner fun p hp => hvalues p.2 (List.of_mem_zip hp).2).bind ?_
      intro _ _
      refine ((ih.execute body inner hf.nodes).widen (List.subset_cons_self _ _)).bind fun v? hv => ?_
      cases v? with
      | some v => exact .pure (hv v rfl)
      | none => exact .pure Value.known_null
  | _ => exact .fail ⟨rfl, trivial⟩ hknown List.mem_cons_self

/-- **Failures are blamed on known nodes at every depth.** -/
theorem blames (depth : Nat) : Blames known depth := by
  induction depth with
  | zero =>
    refine ⟨?_, ?_, ?_⟩
    · intro e s _
      rw [Evaluator.evaluate]
      exact .fault _
    · intro stmt s _
      rw [Evaluator.execute]
      exact .fault _
    · intro f values pos callee args s _ _ _ _
      rw [Evaluator.call]
      exact .fault _
  | succ depth ih => exact ⟨ih.evaluate_succ, ih.execute_succ, ih.call_succ⟩

theorem blames_runStatements {value : Expr → Exec Value} {run : Stmt → Exec (Option Value)}
    {own : List Expr} {body : List Stmt}
    (hvalue : ∀ e, .expr e ∈ body → Exec.Blames known own (value e) (Value.Known known))
    (hrun : ∀ stmt ∈ body, Exec.Blames known own (run stmt) (Value.AnyGood (Value.Known known)))
    {last : Value} (hlast : last.Known known) :
    Exec.Blames known own (runStatements value run last body) (Value.Known known) := by
  induction body generalizing last with
  | nil => exact .pure hlast
  | cons stmt body ih =>
    have ih := fun {last : Value} (hlast : last.Known known) =>
      ih (fun e he => hvalue e (List.mem_cons_of_mem _ he))
        (fun stmt hstmt => hrun stmt (List.mem_cons_of_mem _ hstmt)) hlast
    cases stmt with
    | expr e => exact (hvalue e List.mem_cons_self).bind fun v hv => ih hv
    | _ =>
      refine (hrun _ List.mem_cons_self).bind fun v? hv => ?_
      cases v? with
      | some v => exact .pure (hv v rfl)
      | none => exact ih Value.known_null

/-- **A failure of a program is blamed on a node of it, or of a function that was called.** -/
theorem blames_runProgram (depth : Nat) (p : Program) (s : ScopeId) (hp : ∀ x ∈ p.nodes, known x) :
    Exec.Blames known p.nodes (runProgram toolbox depth p s) (Value.Known known) := by
  have h : Blames known depth := blames depth
  have hsub : ∀ stmt ∈ p.statements, stmt.nodes ⊆ p.nodes :=
    fun stmt hstmt => Stmt.nodes_subset_nodesAll hstmt
  refine blames_runStatements (fun e he => ?_) (fun stmt hstmt => ?_) Value.known_null
  · exact (h.evaluate e s fun x hx => hp x (hsub _ he hx)).widen (hsub _ he)
  · exact (h.execute stmt s fun x hx => hp x (hsub _ hstmt hx)).widen (hsub _ hstmt)

end Evaluator

end Klex
