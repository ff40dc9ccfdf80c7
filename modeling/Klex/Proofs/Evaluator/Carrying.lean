import Klex.Proofs.Evaluator.Trait

/-!
# Properties that the evaluator carries

Many properties of computations hold of the evaluator for one reason: they hold of each operation of the
machine and pass from the parts of a computation to the whole.  The evaluator is gone through here once for
all of them.

* **`Exec.Composes`** — a property of computations passes from the parts to the whole.
* **`Exec.Carries`** — it also holds of each operation of the machine.  What happens inside a call that has
  been put in progress may have to meet another property, which depends on the call.
* **`Evaluator.Carried`**, **`Evaluator.carried`** — **then the evaluator has the property at every depth**;
  `Carried.program` says so of programs.
-/

namespace Klex

/-- The property holds of a computation if it holds of its parts. -/
structure Exec.Composes (good : Value → Prop) (holds : ∀ {α : Type}, Exec α → Prop) : Prop where
  pure : ∀ {α : Type} (a : α), holds (pure a)
  throw : ∀ {α : Type} (stop : Stop), holds (throw stop : Exec α)
  bind : ∀ {α β : Type} {x : Exec α} {f : α → Exec β} {Q : α → Prop}, holds x → Exec.Keeps good x Q →
    (∀ a, Q a → holds (f a)) → holds (x >>= f)

/-- The property also holds of the operations of the machine.  What happens inside a call has the second
property, which natives meet by themselves. -/
structure Exec.Carries (good : Value → Prop) (host : Host) (holds : ∀ {α : Type}, Exec α → Prop)
    (inCall : Frame → Exec Value → Prop) : Prop extends Exec.Composes good holds where
  enter : ∀ pos, holds (Exec.enter pos)
  heap : holds Exec.heap
  freshId : holds Exec.freshId
  alloc : ∀ parent boundary, holds (Exec.alloc parent boundary)
  defineAll : ∀ s pairs, holds (Exec.defineAll s pairs)
  assign : ∀ s name v, holds (Exec.assign s name v)
  opened : ∀ {frame : Frame} {x : Exec Value}, (∀ v ∈ frame.args, good v) → Exec.Keeps good x good →
    inCall frame x → holds (do Exec.push frame; let v ← x; Exec.pop; return v)
  /-- A call may exhaust the stack. -/
  fault : ∀ (frame : Frame) (f : Fault), inCall frame (Exec.fault f)
  /-- A function of the language, or something that cannot be called. -/
  plain : ∀ {frame : Frame} {x : Exec Value}, (∀ id name discards code bound,
    frame.func ≠ .native id name discards code bound) → holds x → inCall frame x
  native : ∀ (reentry : Reentry), reentry.Keeps good → ∀ {frame : Frame} {id : Nat} {name : String}
    {discards : Bool} {code : Native} {bound : List Value} (s : ScopeId),
    frame.func = .native id name discards code bound → good frame.func → (∀ v ∈ frame.args, good v) →
    inCall frame (Evaluator.callNative host reentry discards code ⟨s, frame.args, bound⟩)

variable {good : Value → Prop} {host : Host} {holds : ∀ {α : Type}, Exec α → Prop}
  {inCall : Frame → Exec Value → Prop}

namespace Exec.Composes

variable {α : Type}

theorem fail (h : Composes good holds) (cause : Cause) (pos : Option Nat) :
    holds (Exec.fail cause pos : Exec α) :=
  h.throw _

theorem ofStop (h : Composes good holds) (r : Except Stop α) : holds (Exec.ofStop r) := by
  cases r with
  | ok a => exact h.pure a
  | error stop => exact h.throw stop

theorem ofFault (h : Composes good holds) (r : Except Fault α) : holds (Exec.ofFault r) := by
  cases r with
  | ok a => exact h.pure a
  | error f => exact h.throw _

end Exec.Composes

namespace Evaluator

/-- The evaluator has the property at a depth. -/
structure Carried (good : Value → Prop) (host : Host) (holds : ∀ {α : Type}, Exec α → Prop)
    (inCall : Frame → Exec Value → Prop) (depth : Nat) : Prop where
  evaluate : ∀ (e : Expr) (s : ScopeId), holds (evaluate host depth e s)
  execute : ∀ (stmt : Stmt) (s : ScopeId), holds (execute host depth stmt s)
  call : ∀ {frame : Frame} (s : ScopeId) (site : Option Nat), good frame.func →
    (∀ v ∈ frame.args, good v) → inCall frame (call host depth frame.func frame.args s site)

/-! ### Rows -/

theorem composes_each (h : Exec.Composes good holds) {f : Expr → Exec Value}
    (hkeeps : ∀ e, Exec.Keeps good (f e) good) (hf : ∀ e, holds (f e)) (es : List Expr) :
    holds (each f es) := by
  induction es with
  | nil => exact h.pure []
  | cons e es ih =>
    refine h.bind (hf e) (hkeeps e) fun v _ => ?_
    exact h.bind ih (keeps_each hkeeps es) fun vs _ => h.pure _

theorem composes_untilReturn (h : Exec.Composes good holds)
    {run : Stmt → Exec (Option Value)}
    (hkeeps : ∀ stmt, Exec.Keeps good (run stmt) (Value.AnyGood good)) (hrun : ∀ stmt, holds (run stmt))
    (body : List Stmt) : holds (untilReturn run body) := by
  induction body with
  | nil => exact h.pure none
  | cons stmt body ih =>
    refine h.bind (hrun stmt) (hkeeps stmt) fun v? _ => ?_
    cases v? with
    | some v => exact h.pure (some v)
    | none => exact ih

theorem composes_runStatements (h : Exec.Composes good holds) {value : Expr → Exec Value}
    {run : Stmt → Exec (Option Value)} (hvalues : ∀ e, Exec.Keeps good (value e) good)
    (hruns : ∀ stmt, Exec.Keeps good (run stmt) (Value.AnyGood good)) (hvalue : ∀ e, holds (value e))
    (hrun : ∀ stmt, holds (run stmt)) (last : Value) (body : List Stmt) :
    holds (runStatements value run last body) := by
  induction body generalizing last with
  | nil => exact h.pure last
  | cons stmt body ih =>
    cases stmt with
    | expr e => exact h.bind (hvalue e) (hvalues e) fun v _ => ih v
    | _ =>
      refine h.bind (hrun _) (hruns _) fun v? _ => ?_
      cases v? with
      | some v => exact h.pure v
      | none => exact ih .null

/-! ### One level of the evaluator -/

variable {depth : Nat}

theorem composes_operate (h : Exec.Composes good holds) (pos : Nat) (op : String) (a b : Value) :
    holds (operate pos op a b) := by
  refine h.bind (Q := fun _ => True) (h.ofFault _) (Exec.keeps_ofFault fun _ _ => trivial) fun v? _ => ?_
  cases v? with
  | some v => exact h.pure v
  | none => exact h.fail _ _

theorem Carried.evaluate_succ (h : Exec.Carries good host holds inCall) (hkeeps : Keeps good host depth)
    (ih : Carried good host holds inCall depth) (e : Expr) (s : ScopeId) :
    holds (Evaluator.evaluate host (depth + 1) e s) := by
  unfold Evaluator.evaluate
  refine h.bind (h.enter _) (Exec.keeps_enter _) fun _ _ => ?_
  cases e with
  | literal pos value => exact h.pure _
  | name pos id => exact h.bind h.heap Exec.keeps_heap fun _ _ => h.ofStop _
  | group pos inner => exact ih.evaluate inner s
  | negate pos operand =>
    exact h.bind (ih.evaluate operand s) (hkeeps.evaluate operand s) fun _ _ => h.pure _
  | function pos params body => exact h.bind h.freshId Exec.keeps_freshId fun _ _ => h.pure _
  | binary pos op left right =>
    refine h.bind (ih.evaluate left s) (hkeeps.evaluate left s) fun a _ => ?_
    refine h.bind (ih.evaluate right s) (hkeeps.evaluate right s) fun b _ => ?_
    exact composes_operate h.toComposes pos op a b
  | call pos callee args =>
    refine h.bind (ih.evaluate callee s) (hkeeps.evaluate callee s) fun f hf => ?_
    by_cases hcallable : f.isCallable = true
    · rw [if_pos hcallable]
      have hargs := composes_each h.toComposes (fun e => hkeeps.evaluate e s) (fun e => ih.evaluate e s) args
      refine h.bind hargs (keeps_each (fun e => hkeeps.evaluate e s) args) fun values hvalues => ?_
      exact h.opened hvalues (hkeeps.call s (some pos) hf hvalues) (ih.call s (some pos) hf hvalues)
    · rw [if_neg hcallable]
      exact h.fail _ _

theorem Carried.execute_succ (h : Exec.Carries good host holds inCall) (hkeeps : Keeps good host depth)
    (ih : Carried good host holds inCall depth) (stmt : Stmt) (s : ScopeId) :
    holds (Evaluator.execute host (depth + 1) stmt s) := by
  unfold Evaluator.execute
  refine h.bind (h.enter _) (Exec.keeps_enter _) fun _ _ => ?_
  cases stmt with
  | expr e => exact h.bind (ih.evaluate e s) (hkeeps.evaluate e s) fun _ _ => h.pure _
  | assign pos target e =>
    refine h.bind (ih.evaluate e s) (hkeeps.evaluate e s) fun v hv => ?_
    exact h.bind (h.assign s target v) (Exec.keeps_assign s target hv) fun _ _ => h.pure _
  | ret pos e => exact h.bind (ih.evaluate e s) (hkeeps.evaluate e s) fun _ _ => h.pure _
  | block pos body =>
    refine h.bind (h.alloc _ _) (Exec.keeps_alloc _ _) fun inner _ => ?_
    exact composes_untilReturn h.toComposes (fun stmt => hkeeps.execute stmt inner)
      (fun stmt => ih.execute stmt inner) body
  | cond pos test yes no =>
    refine h.bind (ih.evaluate test s) (hkeeps.evaluate test s) fun v _ => ?_
    by_cases hv : v.isTruthy = true
    · rw [if_pos hv]
      exact ih.execute yes s
    · rw [if_neg hv]
      cases no with
      | none => exact h.pure none
      | some no => exact ih.execute no s

theorem Carried.callClosure (h : Exec.Carries good host holds inCall) (hkeeps : Keeps good host depth)
    (ih : Carried good host holds inCall depth) (params : List String) (body : Stmt) (home : ScopeId)
    {args : List Value} (site : Option Nat) (hargs : ∀ v ∈ args, good v) :
    holds (callClosure (Evaluator.execute host depth) params body home args site) := by
  rw [Evaluator.callClosure]
  by_cases hcount : params.length < args.length
  · rw [if_pos hcount]
    exact h.bind (Q := fun _ => False) (h.fail _ _) (Exec.keeps_fail _ _) fun _ hno => hno.elim
  · rw [if_neg hcount]
    refine h.bind (h.alloc _ _) (Exec.keeps_alloc _ _) fun inner _ => ?_
    have hdefine : Exec.Keeps good (Exec.defineAll inner (params.zip args)) fun _ => True :=
      Exec.keeps_defineAll inner fun p hp => hargs p.2 (List.of_mem_zip hp).2
    refine h.bind (h.defineAll _ _) hdefine fun _ _ => ?_
    exact h.bind (ih.execute body inner) (hkeeps.execute body inner) fun _ _ => h.pure _

theorem Carried.call_succ (h : Exec.Carries good host holds inCall) (hkeeps : Keeps good host depth)
    (ih : Carried good host holds inCall depth) {frame : Frame} (s : ScopeId) (site : Option Nat)
    (hf : good frame.func) (hargs : ∀ v ∈ frame.args, good v) :
    inCall frame (Evaluator.call host (depth + 1) frame.func frame.args s site) := by
  cases hfunc : frame.func with
  | native id name discards code bound =>
    rw [call_native]
    exact h.native _ hkeeps.reentry s hfunc hf hargs
  | closure id params body home =>
    refine h.plain (by simp [hfunc]) ?_
    exact ih.callClosure h hkeeps params body home site hargs
  | _ => exact h.plain (by simp [hfunc]) (h.fail _ _)

/-- **The evaluator has the property at every depth.** -/
theorem carried (h : Exec.Carries good host holds inCall) (hgood : Value.Trait good)
    (hhost : host.Keeps good) (depth : Nat) : Carried good host holds inCall depth := by
  induction depth with
  | zero =>
    refine ⟨?_, ?_, ?_⟩
    · intro e s
      rw [Evaluator.evaluate]
      exact h.throw _
    · intro stmt s
      rw [Evaluator.execute]
      exact h.throw _
    · intro frame s site _ _
      rw [Evaluator.call]
      exact h.fault frame _
  | succ depth ih =>
    have hkeeps := keeps hgood hhost depth
    exact ⟨ih.evaluate_succ h hkeeps, ih.execute_succ h hkeeps, ih.call_succ h hkeeps⟩

theorem Carried.program (h : Exec.Carries good host holds inCall) (hkeeps : Keeps good host depth)
    (hcarried : Carried good host holds inCall depth) (p : Program) (s : ScopeId) :
    holds (runProgram host depth p s) :=
  composes_runStatements h.toComposes (fun e => hkeeps.evaluate e s) (fun stmt => hkeeps.execute stmt s)
    (fun e => hcarried.evaluate e s) (fun stmt => hcarried.execute stmt s) .null p.statements

end Evaluator

end Klex
