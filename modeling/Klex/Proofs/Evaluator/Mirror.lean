import Klex.Host.Toolbox
import Klex.Proofs.Machine.Mirror
import Klex.Proofs.Operator.Results

/-!
# Two runs of the evaluator

* **`Host.Mirrors`** — the builtins of a host keep in step; those of the toolbox do (`toolbox_mirrors`).
* **`Evaluator.Mirrors`** — what two runs of the evaluator keep to at a given depth.
* **`Evaluator.mirrors`** — **two runs of the same tree keep in step at every depth**, when the second tree
  may have other offsets and the second machine other bindings in scopes that the first run cannot
  reach.  This is the one induction along a pair of runs; the comparisons of runs are read off it.
-/

namespace Klex

variable {ρ : Relocation} {R : Nat → Prop}

/-! ### Natives -/

/-- The builtins keep in step, whatever they could ask of the evaluator. -/
def Host.Mirrors (ρ : Relocation) (R : Nat → Prop) (host : Host) : Prop :=
  ∀ (reentry reentry' : Reentry) (code : Native) (s : Nat) (args bound bound' : List Value),
    code.IsBuiltin → R s → (∀ v ∈ args, v.Inside R) →
      Exec.Mirrors ρ R (host reentry code ⟨s, args, bound⟩)
        (host reentry' code ⟨s, args.map (Value.relocate ρ), bound'⟩) (Value.Mirrors ρ R)

theorem Toolbox.printedText_relocate (v : Value) :
    printedText (v.relocate ρ) = printedText v := by
  have htext := Value.toText_relocate (ρ := ρ) v
  cases v <;> first | rfl | exact htext

/-- **The builtins of the toolbox keep in step.** -/
theorem toolbox_mirrors : toolbox.Mirrors ρ R := by
  have habsent : Value.Mirrors ρ R .absent .absent :=
    ⟨rfl, by constructor <;> simp [Value.Captures, Value.UsesOnly, Value.parts]⟩
  rintro reentry reentry' code s args bound bound' (rfl | rfl) hs hargs
  · have htext : Toolbox.printedText (Request.arg ⟨s, args.map (Value.relocate ρ), bound'⟩ 0)
        = Toolbox.printedText (Request.arg ⟨s, args, bound⟩ 0) := by
      cases args with
      | nil => rfl
      | cons v vs => exact Toolbox.printedText_relocate v
    show Exec.Mirrors ρ R (Toolbox.onValues .print _) (Toolbox.onValues .print _) _
    rw [Toolbox.onValues, Toolbox.onValues, htext]
    exact (Exec.mirrors_emit _ _).bind fun _ _ _ => .pure habsent
  · refine Exec.mirrors_heap.bind fun h h' hh => ?_
    have hnames : Toolbox.sortedNames h' s = Toolbox.sortedNames h s := by
      rw [Toolbox.sortedNames, Toolbox.sortedNames, hh.visibleNames hs]
    show Exec.Mirrors ρ R (do Exec.emit "debug" (", ".intercalate (Toolbox.sortedNames h s)); _)
      (do Exec.emit "debug" (", ".intercalate (Toolbox.sortedNames h' s)); _) _
    rw [hnames]
    exact (Exec.mirrors_emit _ _).bind fun _ _ _ => .pure habsent

namespace Evaluator

/-- What two runs keep to at a depth. -/
structure Mirrors (ρ : Relocation) (R : Nat → Prop) (host : Host) (depth : Nat) : Prop where
  evaluate : ∀ (e : Expr) {s : Nat}, R s →
    Exec.Mirrors ρ R (evaluate host depth e s) (evaluate host depth (ρ.expr e) s)
      (Value.Mirrors ρ R)
  execute : ∀ (stmt : Stmt) {s : Nat}, R s →
    Exec.Mirrors ρ R (execute host depth stmt s) (execute host depth (ρ.stmt stmt) s)
      (Value.MirrorsIfAny ρ R)
  call : ∀ {f : Value} {args : List Value} {s : Nat} (site : Option Nat), f.Inside R →
    (∀ v ∈ args, v.Inside R) → R s →
    Exec.Mirrors ρ R (call host depth f args s site)
      (call host depth (f.relocate ρ) (args.map (Value.relocate ρ)) s (site.map ρ.offset))
      (Value.Mirrors ρ R)

/-! ### Rows -/

theorem mirrors_each {f g : Expr → Exec Value}
    (hfg : ∀ e, Exec.Mirrors ρ R (f e) (g (ρ.expr e)) (Value.Mirrors ρ R)) (es : List Expr) :
    Exec.Mirrors ρ R (each f es) (each g (es.map ρ.expr)) (Value.AllMirror ρ R) := by
  induction es with
  | nil => exact .pure ⟨rfl, by simp⟩
  | cons e es ih =>
    refine (hfg e).bind fun v w hvw => ?_
    refine ih.bind fun vs ws hvws => .pure ?_
    refine ⟨?_, List.forall_mem_cons.2 ⟨hvw.inside, hvws.inside⟩⟩
    rw [List.map_cons, hvw.eq, hvws.eq]

theorem mirrors_untilReturn {run run' : Stmt → Exec (Option Value)}
    (hrun : ∀ stmt, Exec.Mirrors ρ R (run stmt) (run' (ρ.stmt stmt)) (Value.MirrorsIfAny ρ R))
    (body : List Stmt) :
    Exec.Mirrors ρ R (untilReturn run body) (untilReturn run' (body.map ρ.stmt))
      (Value.MirrorsIfAny ρ R) := by
  induction body with
  | nil => exact .pure ⟨rfl, by simp⟩
  | cons stmt body ih =>
    refine (hrun stmt).bind ?_
    rintro v? w? ⟨rfl, hinside⟩
    cases v? with
    | some v => exact .pure ⟨rfl, hinside⟩
    | none => exact ih

theorem mirrors_runStatements {value value' : Expr → Exec Value}
    {run run' : Stmt → Exec (Option Value)} {last : Value}
    (hvalue : ∀ e, Exec.Mirrors ρ R (value e) (value' (ρ.expr e)) (Value.Mirrors ρ R))
    (hrun : ∀ stmt, Exec.Mirrors ρ R (run stmt) (run' (ρ.stmt stmt)) (Value.MirrorsIfAny ρ R))
    (hlast : last.Inside R) (body : List Stmt) :
    Exec.Mirrors ρ R (runStatements value run last body)
      (runStatements value' run' (last.relocate ρ) (body.map ρ.stmt)) (Value.Mirrors ρ R) := by
  induction body generalizing last with
  | nil => exact .pure ⟨rfl, hlast⟩
  | cons stmt body ih =>
    have hstmt := hrun stmt
    rw [List.map_cons]
    cases stmt with
    | expr e =>
      rw [ρ.single]
      refine (hvalue e).bind ?_
      rintro v w ⟨rfl, hinside⟩
      exact ih hinside
    | _ =>
      simp only [ρ.block, ρ.ret, ρ.assign, ρ.cond] at hstmt ⊢
      refine hstmt.bind ?_
      rintro v? w? ⟨rfl, hinside⟩
      cases v? with
      | some v => exact .pure ⟨rfl, hinside v rfl⟩
      | none => exact ih Value.null_inside

/-! ### The parts of the evaluator -/

theorem calleeName_relocate (e : Expr) : calleeName (ρ.expr e) = calleeName e := by
  cases e with
  | literal pos value => rw [ρ.literal]; rfl
  | name pos id => rw [ρ.name]; rfl
  | group pos inner => rw [ρ.group]; rfl
  | negate pos operand => rw [ρ.negate]; rfl
  | binary pos op left right => rw [ρ.binary]; rfl
  | call pos callee args => rw [ρ.call]; rfl
  | function pos params body => rw [ρ.function]; rfl

theorem mirrors_lookup {h h' : Heap} (hh : h.Mirrors ρ R h') {s : Nat} (hs : R s) (id : String)
    (pos : Nat) :
    Exec.Mirrors ρ R (Exec.ofStop ((h.lookup s id (some pos)).mapError .failure))
      (Exec.ofStop ((h'.lookup s id (some (ρ.offset pos))).mapError .failure))
      (Value.Mirrors ρ R) := by
  rw [Heap.lookup, Heap.lookup, hh.lookup? hs]
  cases hv : h.lookup? s id with
  | none => exact Exec.mirrors_fail (.unbound id) (some pos)
  | some v => exact .pure ⟨rfl, hh.lookup_inside hs hv⟩

/-- An operator gives a value without functions. -/
theorem mirrors_operate (pos : Nat) (op : String) (a b : Value) :
    Exec.Mirrors ρ R (operate pos op a b)
      (operate (ρ.offset pos) op (a.relocate ρ) (b.relocate ρ)) (Value.Mirrors ρ R) := by
  rw [operate, operate, applyOperator_relocate, Value.typeName_relocate, Value.typeName_relocate]
  cases hresult : applyOperator op a b with
  | error f => exact Exec.Mirrors.bind (Q := fun _ _ => False) (Exec.mirrors_fault f) (by simp)
  | ok v? =>
    cases v? with
    | none => exact Exec.mirrors_fail _ (some pos)
    | some v =>
      obtain ⟨l, rfl, -⟩ := applyOperator_ok hresult
      exact .pure ⟨(Value.relocate_ofLiteral l).symm, Value.ofLiteral_inside l⟩

theorem mirrors_callClosure {run run' : Stmt → ScopeId → Exec (Option Value)}
    {params : List String} {body : Stmt} {home : Nat} {args : List Value} (site : Option Nat)
    (hhome : R home) (hargs : ∀ v ∈ args, v.Inside R)
    (hrun : ∀ s : Nat, R s →
      Exec.Mirrors ρ R (run body s) (run' (ρ.stmt body) s) (Value.MirrorsIfAny ρ R)) :
    Exec.Mirrors ρ R (callClosure run params body home args site)
      (callClosure run' params (ρ.stmt body) home (args.map (Value.relocate ρ))
        (site.map ρ.offset)) (Value.Mirrors ρ R) := by
  rw [callClosure, callClosure, List.length_map]
  by_cases hcount : params.length < args.length
  · rw [if_pos hcount, if_pos hcount]
    exact Exec.Mirrors.bind (Q := fun _ _ => False) (Exec.mirrors_fail _ site) (by simp)
  · rw [if_neg hcount, if_neg hcount]
    refine (Exec.mirrors_alloc (fun p hp => Option.some.inj hp ▸ hhome) true).bind ?_
    rintro _ s ⟨rfl, hs⟩
    have hpairs : params.zip (args.map (Value.relocate ρ))
        = Bindings.relocate ρ (params.zip args) := by
      rw [Bindings.relocate, List.zip_map_right]
      rfl
    rw [hpairs]
    refine (Exec.mirrors_defineAll hs fun p hp => hargs p.2 (List.of_mem_zip hp).2).bind ?_
    intro _ _ _
    refine (hrun s hs).bind ?_
    rintro v? w? ⟨rfl, hinside⟩
    cases v? with
    | some v => exact .pure ⟨rfl, hinside v rfl⟩
    | none => exact .pure ⟨rfl, Value.null_inside⟩

/-! ### One level of the evaluator -/

variable {host : Host} {depth : Nat}

theorem Mirrors.evaluate_succ (ih : Mirrors ρ R host depth) (e : Expr) {s : Nat} (hs : R s) :
    Exec.Mirrors ρ R (Evaluator.evaluate host (depth + 1) e s)
      (Evaluator.evaluate host (depth + 1) (ρ.expr e) s) (Value.Mirrors ρ R) := by
  unfold Evaluator.evaluate
  refine (Exec.mirrors_enter _ _).bind fun _ _ _ => ?_
  cases e with
  | literal pos value =>
    rw [ρ.literal]
    exact .pure ⟨(Value.relocate_ofLiteral value).symm, Value.ofLiteral_inside value⟩
  | name pos id =>
    rw [ρ.name]
    exact Exec.mirrors_heap.bind fun h h' hh => mirrors_lookup hh hs id pos
  | group pos inner =>
    rw [ρ.group]
    exact ih.evaluate inner hs
  | negate pos operand =>
    rw [ρ.negate]
    refine (ih.evaluate operand hs).bind ?_
    rintro v w ⟨rfl, -⟩
    refine .pure ⟨?_, Value.bool_inside _⟩
    rw [Value.isTruthy_relocate]
    rfl
  | function pos params body =>
    rw [ρ.function]
    refine Exec.mirrors_freshId.bind ?_
    rintro id _ rfl
    exact .pure ⟨rfl, Value.closure_inside hs⟩
  | binary pos op left right =>
    rw [ρ.binary]
    refine (ih.evaluate left hs).bind ?_
    rintro a _ ⟨rfl, -⟩
    refine (ih.evaluate right hs).bind ?_
    rintro b _ ⟨rfl, -⟩
    exact mirrors_operate pos op a b
  | call pos callee args =>
    rw [ρ.call]
    refine (ih.evaluate callee hs).bind ?_
    rintro f _ ⟨rfl, hf⟩
    simp only [Value.isCallable_relocate, Value.display_relocate]
    by_cases hcallable : f.isCallable = true
    · rw [if_pos hcallable, if_pos hcallable, calleeName_relocate]
      refine (mirrors_each (fun arg => ih.evaluate arg hs) args).bind ?_
      rintro values _ ⟨rfl, hvalues⟩
      refine (Exec.mirrors_push ⟨calleeName callee, f, values, pos⟩).bind fun _ _ _ => ?_
      refine (ih.call (some pos) hf hvalues hs).bind fun v w hvw => ?_
      exact Exec.mirrors_pop.bind fun _ _ _ => .pure hvw
    · rw [if_neg hcallable, if_neg hcallable]
      exact Exec.mirrors_fail _ (some pos)

theorem Mirrors.execute_succ (ih : Mirrors ρ R host depth) (stmt : Stmt) {s : Nat} (hs : R s) :
    Exec.Mirrors ρ R (Evaluator.execute host (depth + 1) stmt s)
      (Evaluator.execute host (depth + 1) (ρ.stmt stmt) s) (Value.MirrorsIfAny ρ R) := by
  unfold Evaluator.execute
  refine (Exec.mirrors_enter _ _).bind fun _ _ _ => ?_
  cases stmt with
  | expr e =>
    rw [ρ.single]
    exact (ih.evaluate e hs).bind fun _ _ _ => .pure ⟨rfl, by simp⟩
  | assign pos target e =>
    rw [ρ.assign]
    refine (ih.evaluate e hs).bind ?_
    rintro v _ ⟨rfl, hv⟩
    exact (Exec.mirrors_assign hs target hv).bind fun _ _ _ => .pure ⟨rfl, by simp⟩
  | ret pos e =>
    rw [ρ.ret]
    refine (ih.evaluate e hs).bind ?_
    rintro v _ ⟨rfl, hv⟩
    exact .pure ⟨Value.present?_relocate v, fun w hw => hv.present? hw⟩
  | block pos body =>
    rw [ρ.block]
    refine (Exec.mirrors_alloc (fun p hp => Option.some.inj hp ▸ hs) false).bind ?_
    rintro inner _ ⟨rfl, hinner⟩
    exact mirrors_untilReturn (fun stmt => ih.execute stmt hinner) body
  | cond pos test yes no =>
    rw [ρ.cond]
    refine (ih.evaluate test hs).bind ?_
    rintro v _ ⟨rfl, -⟩
    simp only [Value.isTruthy_relocate]
    by_cases hv : v.isTruthy = true
    · rw [if_pos hv, if_pos hv]
      exact ih.execute yes hs
    · rw [if_neg hv, if_neg hv]
      cases no with
      | none => exact .pure ⟨rfl, by simp⟩
      | some no => exact ih.execute no hs

theorem Mirrors.call_succ (hhost : host.Mirrors ρ R) (ih : Mirrors ρ R host depth) {f : Value}
    {args : List Value} {s : Nat} (site : Option Nat) (hf : f.Inside R)
    (hargs : ∀ v ∈ args, v.Inside R) (hs : R s) :
    Exec.Mirrors ρ R (Evaluator.call host (depth + 1) f args s site)
      (Evaluator.call host (depth + 1) (f.relocate ρ) (args.map (Value.relocate ρ)) s
        (site.map ρ.offset)) (Value.Mirrors ρ R) := by
  unfold Evaluator.call
  cases f with
  | native id name discards code bound =>
    refine (hhost _ _ code s args bound _ hf.isBuiltin hs hargs).bind ?_
    rintro v _ ⟨rfl, hv⟩
    cases discards with
    | true => exact .pure ⟨rfl, Value.null_inside⟩
    | false => exact .pure ⟨Value.orNull_relocate v, hv.orNull⟩
  | closure id params body home =>
    exact mirrors_callClosure site hf.home hargs fun s hs => ih.execute body hs
  | null => exact Exec.mirrors_fail _ site
  | bool b => exact Exec.mirrors_fail _ site
  | int n => exact Exec.mirrors_fail _ site
  | float x => exact Exec.mirrors_fail _ site
  | text t => exact Exec.mirrors_fail _ site
  | list id items =>
    show Exec.Mirrors ρ R (Exec.fail (.notCallable (Value.list id items).display) site)
      (Exec.fail (.notCallable ((Value.list id items).relocate ρ).display) (site.map ρ.offset)) _
    rw [Value.display_relocate]
    exact Exec.mirrors_fail _ site
  | absent => exact Exec.mirrors_fail _ site

/-- **Two runs keep in step at every depth.** -/
theorem mirrors (hhost : host.Mirrors ρ R) (depth : Nat) : Mirrors ρ R host depth := by
  induction depth with
  | zero =>
    refine ⟨?_, ?_, ?_⟩
    · intro e s _
      rw [Evaluator.evaluate, Evaluator.evaluate]
      exact Exec.mirrors_fault .stackExhausted
    · intro stmt s _
      rw [Evaluator.execute, Evaluator.execute]
      exact Exec.mirrors_fault .stackExhausted
    · intro f args s site _ _ _
      rw [Evaluator.call, Evaluator.call]
      exact Exec.mirrors_fault .stackExhausted
  | succ depth ih => exact ⟨ih.evaluate_succ, ih.execute_succ, ih.call_succ hhost⟩

theorem Mirrors.program (h : Mirrors ρ R host depth) (p : Program) {s : Nat} (hs : R s)
    (pos : Option Nat) :
    Exec.Mirrors ρ R (runProgram host depth p s)
      (runProgram host depth ⟨pos, p.statements.map ρ.stmt⟩ s) (Value.Mirrors ρ R) :=
  mirrors_runStatements (fun e => h.evaluate e hs) (fun stmt => h.execute stmt hs)
    Value.null_inside p.statements

end Evaluator

end Klex
