import Klex.Evaluator
import Klex.Proofs.Machine.Steps

/-!
# How the evaluator changes a machine

* **`Reentry.Obeys`**, **`Host.Obeys`** — what a native may rely on, and what it has to keep to:
  **it changes scopes by steps of the machine only**, and gives new names to scopes that it made
  itself, unless the policy lets natives bind.
* **`Evaluator.Conduct`** — what the four functions of the evaluator keep to at a given depth.
* **`conduct`** — **they keep to it at every depth**, for every host that does its part.  This is
  the one induction along the evaluator; whatever is said about runs of scripts is read off it.

An expression, a call and a block give no new name to a scope that was there before.  Any other
statement may give some to the scope that it runs in, and a script to the scope of the session.
-/

namespace Klex

open Machine

/-- Whether a statement makes a scope of its own. -/
def Stmt.opensScope : Stmt → Bool
  | .block _ _ => true
  | _ => false

/-! ### Natives -/

/-- What a native is called with may stand in a machine with `n` scopes. -/
structure Request.Fits (P : Policy) (n : Nat) (r : Request) : Prop where
  scope : r.scope < n
  args : ∀ v ∈ r.args, v.Fits P n
  bound : ∀ v ∈ r.bound, v.Fits P n

/-- What a native may rely on when it goes back to the evaluator of a machine with at least `least`
scopes. -/
structure Reentry.Obeys (P : Policy) (least : Nat) (r : Reentry) : Prop where
  call : ∀ {f : Value} {args : List Value} {s : Nat} {m : Machine}, least ≤ m.heap.size →
    f.Fits P m.heap.size → (∀ v ∈ args, v.Fits P m.heap.size) → s < m.heap.size →
    Exec.Obeys P (P.Fresh m.heap.size) (r.call f args s) (Value.Stands P) m
  script : ∀ (source : String) {m : Machine}, least ≤ m.heap.size → globalScope < m.heap.size →
    Exec.Obeys P (fun t => P.Fresh m.heap.size t ∨ t = globalScope) (r.script source)
      (Report.Stands P) m

/-- Every native of the policy changes the machine by steps, and gives a value that fits. -/
def Host.Obeys (P : Policy) (least : Nat) (host : Host) : Prop :=
  ∀ reentry : Reentry, reentry.Obeys P least → ∀ (code : Native) (r : Request) (m : Machine),
    P.native code → least ≤ m.heap.size → r.Fits P m.heap.size →
      Exec.Obeys P (P.Fresh m.heap.size) (host reentry code r) (Value.Stands P) m

namespace Evaluator

/-- What the evaluator keeps to at a depth, on machines with at least `least` scopes. -/
structure Conduct (P : Policy) (least : Nat) (host : Host) (depth : Nat) : Prop where
  evaluate : ∀ {e : Expr} {s : Nat} {m : Machine}, least ≤ m.heap.size → e.Within P →
    s < m.heap.size →
    Exec.Obeys P (P.Fresh m.heap.size) (evaluate host depth e s) (Value.Stands P) m
  execute : ∀ {stmt : Stmt} {s : Nat} {m : Machine}, least ≤ m.heap.size → stmt.Within P →
    s < m.heap.size →
    Exec.Obeys P (fun t => P.Fresh m.heap.size t ∨ stmt.opensScope = false ∧ t = s)
      (execute host depth stmt s) (Value.StandsIfAny P) m
  call : ∀ {f : Value} {args : List Value} {s : Nat} {site : Option Nat} {m : Machine},
    least ≤ m.heap.size → f.Fits P m.heap.size → (∀ v ∈ args, v.Fits P m.heap.size) →
    s < m.heap.size →
    Exec.Obeys P (P.Fresh m.heap.size) (call host depth f args s site) (Value.Stands P) m
  script : ∀ (source : String) {m : Machine}, least ≤ m.heap.size → globalScope < m.heap.size →
    Exec.Obeys P (fun t => P.Fresh m.heap.size t ∨ t = globalScope) (runScript host depth source)
      (Report.Stands P) m

section

variable {P : Policy} {least : Nat} {host : Host} {depth : Nat} {added : Nat → Prop} {m : Machine}

/-! ### Rows -/

theorem obeys_each {f : Expr → Exec Value} {es : List Expr}
    (hf : ∀ e ∈ es, ∀ m', m.heap.size ≤ m'.heap.size →
      Exec.Obeys P added (f e) (Value.Stands P) m') :
    Exec.Obeys P added (each f es) (fun vs m' => ∀ v ∈ vs, v.Fits P m'.heap.size) m := by
  induction es generalizing m with
  | nil => exact .pure (by simp)
  | cons e es ih =>
    refine (hf e List.mem_cons_self m (Nat.le_refl _)).bind fun v m₁ hm₁ hv => ?_
    have hrest : ∀ e ∈ es, ∀ m', m₁.heap.size ≤ m'.heap.size →
        Exec.Obeys P added (f e) (Value.Stands P) m' :=
      fun e he m' hm' => hf e (List.mem_cons_of_mem _ he) m' (Nat.le_trans hm₁ hm')
    refine (ih hrest).bind fun vs m₂ hm₂ hvs => .pure ?_
    exact List.forall_mem_cons.2 ⟨hv.mono hm₂, hvs⟩

theorem obeys_untilReturn {run : Stmt → Exec (Option Value)} {body : List Stmt}
    (hrun : ∀ stmt ∈ body, ∀ m', m.heap.size ≤ m'.heap.size →
      Exec.Obeys P added (run stmt) (Value.StandsIfAny P) m') :
    Exec.Obeys P added (untilReturn run body) (Value.StandsIfAny P) m := by
  induction body generalizing m with
  | nil => exact .pure (Value.standsIfAny_none P m)
  | cons stmt body ih =>
    refine (hrun stmt List.mem_cons_self m (Nat.le_refl _)).bind fun v? m₁ hm₁ hv => ?_
    cases v? with
    | some v => exact .pure hv
    | none =>
      exact ih fun stmt hstmt m' hm' =>
        hrun stmt (List.mem_cons_of_mem _ hstmt) m' (Nat.le_trans hm₁ hm')

theorem obeys_runStatements {value : Expr → Exec Value} {run : Stmt → Exec (Option Value)}
    {last : Value} {body : List Stmt} (hnull : P.atom .null) (hlast : last.Fits P m.heap.size)
    (hvalue : ∀ e, Stmt.expr e ∈ body → ∀ m', m.heap.size ≤ m'.heap.size →
      Exec.Obeys P added (value e) (Value.Stands P) m')
    (hrun : ∀ stmt ∈ body, ∀ m', m.heap.size ≤ m'.heap.size →
      Exec.Obeys P added (run stmt) (Value.StandsIfAny P) m') :
    Exec.Obeys P added (runStatements value run last body) (Value.Stands P) m := by
  induction body generalizing m last with
  | nil => exact .pure hlast
  | cons stmt body ih =>
    have hrest : ∀ {last : Value} {m₁ : Machine}, m.heap.size ≤ m₁.heap.size →
        last.Fits P m₁.heap.size → Exec.Obeys P added (runStatements value run last body)
          (Value.Stands P) m₁ := by
      intro last m₁ hm₁ hlast
      refine ih hlast ?_ ?_
      · exact fun e he m' hm' =>
          hvalue e (List.mem_cons_of_mem _ he) m' (Nat.le_trans hm₁ hm')
      · exact fun stmt hstmt m' hm' =>
          hrun stmt (List.mem_cons_of_mem _ hstmt) m' (Nat.le_trans hm₁ hm')
    cases stmt with
    | expr e =>
      refine (hvalue e List.mem_cons_self m (Nat.le_refl _)).bind fun v m₁ hm₁ hv => ?_
      exact hrest hm₁ hv
    | _ =>
      refine (hrun _ List.mem_cons_self m (Nat.le_refl _)).bind fun v? m₁ hm₁ hv => ?_
      cases v? with
      | some v => exact .pure (hv v rfl)
      | none => exact hrest hm₁ hnull

/-! ### The parts of the evaluator -/

theorem obeys_operate (hP : P.Sound) (pos : Nat) {op : String} {a b : Value} (hop : P.operator op)
    (ha : a.Fits P m.heap.size) (hb : b.Fits P m.heap.size) :
    Exec.Obeys P added (operate pos op a b) (Value.Stands P) m := by
  refine Exec.Obeys.bind (Q := Value.StandsIfAny P) (Exec.obeys_ofFault ?_ ?_) ?_
  · intro v? hv? v hv
    exact hP.result hop ha hb (hv ▸ hv?)
  · exact fun f hf => hP.overflow hop ha hb hf
  · intro v? m₁ _ hv
    cases v? with
    | some v => exact .pure (hv v rfl)
    | none => exact Exec.obeys_fail _ _

/-- The scope of a call is new, so what its body adds is new as well. -/
theorem obeys_callClosure {run : Stmt → ScopeId → Exec (Option Value)} {params : List String}
    {body : Stmt} {home : Nat} {args : List Value} (site : Option Nat) (hnull : P.atom .null)
    (hhome : home < m.heap.size) (hargs : ∀ v ∈ args, v.Fits P m.heap.size)
    (hrun : ∀ (s : Nat) (m' : Machine), m.heap.size ≤ s → m.heap.size ≤ m'.heap.size →
      s < m'.heap.size →
      Exec.Obeys P (P.Fresh m.heap.size) (run body s) (Value.StandsIfAny P) m') :
    Exec.Obeys P (P.Fresh m.heap.size) (callClosure run params body home args site)
      (Value.Stands P) m := by
  rw [callClosure]
  by_cases hcount : params.length < args.length
  · rw [if_pos hcount]
    refine Exec.Obeys.bind (Q := fun _ _ => False) (Exec.obeys_fail _ _) ?_
    exact fun _ _ _ h => h.elim
  · rw [if_neg hcount]
    refine (Exec.obeys_alloc true ?_).bind ?_
    · rintro p ⟨⟩
      exact hhome
    · rintro s m₁ hm₁ ⟨rfl, hsize⟩
      refine (Exec.obeys_defineAll (by omega) (.inr (Nat.le_refl _)) ?_).bind ?_
      · intro p hp
        exact (hargs p.2 (List.of_mem_zip hp).2).mono hm₁
      · intro _ m₂ hm₂ _
        refine (hrun _ m₂ (Nat.le_refl _) (Nat.le_trans hm₁ hm₂) (by omega)).bind ?_
        intro v? m₃ _ hv
        cases v? with
        | some v => exact .pure (hv v rfl)
        | none => exact .pure hnull

theorem obeys_reporting {source : String} {run : Exec Value}
    (hrun : Exec.Obeys P added run (Value.Stands P) m) :
    Exec.Obeys P added (reporting source run) (Report.Stands P) m := by
  refine Exec.Obeys.tryCatch ?_ ?_
  · refine hrun.bind fun v m₁ _ hv => ?_
    refine Exec.obeys_get.bind ?_
    rintro _ m₂ - ⟨-, rfl⟩
    refine .pure fun w hw => ?_
    exact (Except.ok.inj hw) ▸ hv
  · intro stop m₁ _ hstop
    cases stop with
    | fault f => exact .throw hstop
    | failure f =>
      refine Exec.obeys_get.bind fun _ m₂ _ _ => ?_
      refine (Exec.obeys_emit _ _).bind fun _ m₃ _ _ => ?_
      refine Exec.obeys_get.bind fun _ m₄ _ _ => .pure ?_
      intro v hv
      exact absurd hv (by simp)

/-! ### One level of the evaluator -/

theorem obeys_exhausted {α : Type} {Q : α → Machine → Prop} (hP : P.Sound) :
    Exec.Obeys P added (Exec.fault .stackExhausted) Q m :=
  .throw hP.exhausted

theorem Conduct.evaluate_succ (hP : P.Sound) (h : Conduct P least host depth) {e : Expr} {s : Nat}
    (hm : least ≤ m.heap.size) (he : e.Within P) (hs : s < m.heap.size) :
    Exec.Obeys P (P.Fresh m.heap.size) (Evaluator.evaluate host (depth + 1) e s)
      (Value.Stands P) m := by
  unfold Evaluator.evaluate
  refine (Exec.obeys_enter _).bind fun _ m₀ hm₀ _ => ?_
  -- the part that an expression evaluates next, from whatever machine the parts before it leave
  have next : ∀ {e : Expr} {m' : Machine}, m₀.heap.size ≤ m'.heap.size → e.Within P →
      Exec.Obeys P (P.Fresh m.heap.size) (Evaluator.evaluate host depth e s)
        (Value.Stands P) m' := by
    intro e m' hm' he
    refine (h.evaluate (by omega) he (by omega)).widen fun t => .mono (by omega)
  cases e with
  | literal pos value => exact .pure (Value.ofLiteral_fits (Expr.within_literal.1 he))
  | name pos id =>
    refine Exec.obeys_heap.bind ?_
    rintro _ m₁ - ⟨rfl, rfl⟩
    refine .of_fit fun hfit => Exec.obeys_ofStop ?_ ?_
    · intro v hv
      rw [Heap.lookup] at hv
      cases hlook : m₁.heap.lookup? s id with
      | none =>
        rw [hlook] at hv
        cases hv
      | some w =>
        rw [hlook] at hv
        exact Except.ok.inj hv ▸ hfit.lookup? hlook
    · intro stop hstop
      rw [Heap.lookup] at hstop
      cases hlook : m₁.heap.lookup? s id with
      | some w =>
        rw [hlook] at hstop
        cases hstop
      | none =>
        rw [hlook] at hstop
        exact Except.error.inj hstop ▸ trivial
  | group pos inner => exact next (Nat.le_refl _) (Expr.within_group.1 he)
  | negate pos operand =>
    refine (next (Nat.le_refl _) (Expr.within_negate.1 he)).bind fun v m₁ _ _ => .pure ?_
    exact hP.bool _
  | function pos params body =>
    refine Exec.obeys_freshId.bind fun id m₁ hm₁ _ => .pure ?_
    exact ⟨Nat.lt_of_lt_of_le hs (Nat.le_trans hm₀ hm₁), Expr.within_function.1 he⟩
  | binary pos op left right =>
    have hparts := Expr.within_binary.1 he
    refine (next (Nat.le_refl _) hparts.2.1).bind fun a m₁ hm₁ ha => ?_
    refine (next hm₁ hparts.2.2).bind fun b m₂ hm₂ hb => ?_
    exact obeys_operate hP pos hparts.1 (ha.mono hm₂) hb
  | call pos callee args =>
    have hparts := Expr.within_call.1 he
    refine (next (Nat.le_refl _) hparts.1).bind fun f m₁ hm₁ hf => ?_
    by_cases hcallable : f.isCallable = true
    · rw [if_pos hcallable]
      refine Exec.Obeys.bind (obeys_each fun arg harg m' hm' => ?_) fun values m₂ hm₂ hvalues => ?_
      · exact next (Nat.le_trans hm₁ hm') (hparts.2 arg harg)
      refine (Exec.obeys_push ⟨hf.mono hm₂, hvalues⟩).bind fun _ m₃ hm₃ _ => ?_
      have hvalues : ∀ v ∈ values, v.Fits P m₃.heap.size := fun v hv => (hvalues v hv).mono hm₃
      have hf := hf.mono (Nat.le_trans hm₂ hm₃)
      have hm₃ : m.heap.size ≤ m₃.heap.size := by omega
      refine ((h.call (by omega) hf hvalues (by omega)).widen fun t => .mono hm₃).bind ?_
      intro v m₄ _ hv
      exact Exec.obeys_pop.bind fun _ m₅ hm₅ _ => .pure (hv.mono hm₅)
    · rw [if_neg hcallable]
      exact Exec.obeys_fail _ _

theorem Conduct.execute_succ (h : Conduct P least host depth) {stmt : Stmt} {s : Nat}
    (hm : least ≤ m.heap.size) (hstmt : stmt.Within P) (hs : s < m.heap.size) :
    Exec.Obeys P (fun t => P.Fresh m.heap.size t ∨ stmt.opensScope = false ∧ t = s)
      (Evaluator.execute host (depth + 1) stmt s) (Value.StandsIfAny P) m := by
  unfold Evaluator.execute
  refine (Exec.obeys_enter _).bind fun _ m₀ hm₀ _ => ?_
  have value : ∀ {e : Expr}, e.Within P →
      Exec.Obeys P (fun t => P.Fresh m.heap.size t ∨ stmt.opensScope = false ∧ t = s)
        (Evaluator.evaluate host depth e s) (Value.Stands P) m₀ := by
    intro e he
    refine (h.evaluate (by omega) he (by omega)).widen fun t ht => .inl (ht.mono (by omega))
  -- a branch runs in the scope of the statement itself
  have branch : ∀ {yes : Stmt} {m' : Machine}, m₀.heap.size ≤ m'.heap.size → yes.Within P →
      stmt.opensScope = false →
      Exec.Obeys P (fun t => P.Fresh m.heap.size t ∨ stmt.opensScope = false ∧ t = s)
        (Evaluator.execute host depth yes s) (Value.StandsIfAny P) m' := by
    intro yes m' hm' hyes hstmt
    refine (h.execute (by omega) hyes (by omega)).widen fun t ht => ?_
    exact ht.imp (.mono (by omega)) fun ht => ⟨hstmt, ht.2⟩
  cases stmt with
  | expr e => exact (value hstmt).bind fun v m₁ _ _ => .pure (Value.standsIfAny_none P m₁)
  | assign pos target e =>
    refine (value hstmt).bind fun v m₁ hm₁ hv => ?_
    refine (Exec.obeys_assign target (by omega) (.inr ⟨rfl, rfl⟩) hv).bind fun _ m₂ _ _ => ?_
    exact .pure (Value.standsIfAny_none P m₂)
  | ret pos e =>
    refine (value hstmt).bind fun v m₁ _ hv => .pure ?_
    exact fun w hw => hv.present? hw
  | block pos body =>
    refine (Exec.obeys_alloc false ?_).bind ?_
    · rintro p ⟨⟩
      omega
    rintro inner m₁ hm₁ ⟨rfl, hsize⟩
    refine obeys_untilReturn fun stmt hmem m' hm' => ?_
    refine (h.execute (by omega) (Stmt.within_block.1 hstmt stmt hmem) (by omega)).widen ?_
    rintro t (ht | ⟨-, rfl⟩)
    · exact .inl (ht.mono (by omega))
    · exact .inl (.inr hm₀)
  | cond pos test yes no =>
    have hparts := Stmt.within_cond.1 hstmt
    refine (value hparts.1).bind fun v m₁ hm₁ _ => ?_
    by_cases hv : v.isTruthy = true
    · rw [if_pos hv]
      exact branch hm₁ hparts.2.1 rfl
    · rw [if_neg hv]
      cases no with
      | none => exact .pure (Value.standsIfAny_none P m₁)
      | some no => exact branch hm₁ (hparts.2.2 no rfl) rfl

theorem Conduct.call_succ (hP : P.Sound) (hhost : host.Obeys P least)
    (h : Conduct P least host depth) {f : Value} {args : List Value} {s : Nat}
    {site : Option Nat} (hm : least ≤ m.heap.size) (hf : f.Fits P m.heap.size)
    (hargs : ∀ v ∈ args, v.Fits P m.heap.size) (hs : s < m.heap.size) :
    Exec.Obeys P (P.Fresh m.heap.size) (Evaluator.call host (depth + 1) f args s site)
      (Value.Stands P) m := by
  unfold Evaluator.call
  cases f with
  | native id name discards code bound =>
    rw [Value.Fits, Value.fitAll_iff] at hf
    have hreentry : Reentry.Obeys P least
        ⟨fun f args s => Evaluator.call host depth f args s none,
          fun source => runScript host depth source⟩ := ⟨h.call, h.script⟩
    refine (hhost _ hreentry code ⟨s, args, bound⟩ m hf.1 hm ⟨hs, hargs, hf.2⟩).bind ?_
    intro v m₁ _ hv
    cases discards with
    | true => exact .pure hP.null
    | false => exact .pure (hv.orNull hP.null)
  | closure id params body home =>
    refine obeys_callClosure site hP.null hf.1 hargs fun s m' hms hm' hs => ?_
    refine (h.execute (by omega) hf.2 hs).widen ?_
    rintro t (ht | ⟨-, rfl⟩)
    · exact ht.mono hm'
    · exact .inr hms
  | null => exact Exec.obeys_fail _ _
  | bool b => exact Exec.obeys_fail _ _
  | int n => exact Exec.obeys_fail _ _
  | float x => exact Exec.obeys_fail _ _
  | text t => exact Exec.obeys_fail _ _
  | list id items => exact Exec.obeys_fail _ _
  | absent => exact Exec.obeys_fail _ _

/-- The statements of a program run in one scope, which may get new names. -/
theorem Conduct.program (hP : P.Sound) (h : Conduct P least host depth) {p : Program} {s : Nat}
    (hm : least ≤ m.heap.size) (hp : p.Within P) (hs : s < m.heap.size) :
    Exec.Obeys P (fun t => P.Fresh m.heap.size t ∨ t = s) (runProgram host depth p s)
      (Value.Stands P) m := by
  refine obeys_runStatements hP.null hP.null ?_ ?_
  · intro e he m' hm'
    have hwithin : e.Within P := Program.within_iff.1 hp _ he
    refine (h.evaluate (by omega) hwithin (by omega)).widen fun t ht => .inl (ht.mono hm')
  · intro stmt hstmt m' hm'
    refine (h.execute (by omega) (Program.within_iff.1 hp stmt hstmt) (by omega)).widen ?_
    exact fun t ht => ht.imp (.mono hm') And.right

theorem Conduct.script_succ (hP : P.Sound) (h : Conduct P least host depth) (source : String)
    (hm : least ≤ m.heap.size) (hs : globalScope < m.heap.size) :
    Exec.Obeys P (fun t => P.Fresh m.heap.size t ∨ t = globalScope)
      (runScript host (depth + 1) source) (Report.Stands P) m := by
  rw [runScript]
  refine Exec.obeys_clear.bind fun _ m₀ hm₀ _ => obeys_reporting ?_
  refine Exec.Obeys.bind (Q := fun p m' => p.Within P ∧ m₀.heap.size ≤ m'.heap.size)
    (Exec.obeys_ofStop ?_ ?_) fun p m₁ _ hp => ?_
  · exact fun p hp => ⟨hP.parsed hp, Nat.le_refl _⟩
  · exact fun stop hstop => hP.unparsed hstop
  · have hm₁ := Nat.le_trans hm₀ hp.2
    refine (h.program hP (Nat.le_trans hm hm₁) hp.1 (Nat.lt_of_lt_of_le hs hm₁)).widen ?_
    exact fun t ht => ht.imp_left (.mono hm₁)

/-- **The evaluator keeps to its conduct at every depth.** -/
theorem conduct (hP : P.Sound) (hhost : host.Obeys P least) (depth : Nat) :
    Conduct P least host depth := by
  induction depth with
  | zero =>
    refine ⟨?_, ?_, ?_, ?_⟩
    · intro e s m _ _ _
      rw [Evaluator.evaluate]
      exact obeys_exhausted hP
    · intro stmt s m _ _ _
      rw [Evaluator.execute]
      exact obeys_exhausted hP
    · intro f args s site m _ _ _ _
      rw [Evaluator.call]
      exact obeys_exhausted hP
    · intro source m _ _
      rw [runScript]
      exact obeys_exhausted hP
  | succ depth ih =>
    exact ⟨ih.evaluate_succ hP, ih.execute_succ, ih.call_succ hP hhost,
      fun source _ => ih.script_succ hP source⟩

end

end Evaluator

end Klex
