import Klex.Proofs.Evaluator.Calls

/-!
# Programs one after the other

* **`Evaluator.runToReturn`** — a program run for a `return` that reaches the top.
* **`runProgram_append`** — **a longer program ends where its first part stops early or returns, and else goes
  on with the second part from the machine that the first leaves.**
* **`Machine.resumed`** — a machine with earlier effects in front, and another node entered last.
* **`Exec.Resumes`** — **a computation does the same on it**, and leaves the earlier effects in front.  It may
  write effects but not read or forget them.
* **`Evaluator.resumes`** — so does the evaluator at every depth, as far as natives do (`resumes_carries`).
-/

namespace Klex

open Evaluator

/-- The statements of one program, then those of the other. -/
def Program.append (p q : Program) : Program := ⟨p.pos, p.statements ++ q.statements⟩

instance : Append Program := ⟨Program.append⟩

/-! ### A longer program -/

namespace Evaluator

/-- Runs a program for a `return` that reaches the top.  Nothing comes out if the statements run out. -/
def runToReturn (host : Host) (depth : Nat) (p : Program) (s : ScopeId) : Exec (Option Value) :=
  untilReturn (line (fun e => evaluate host depth e s) fun stmt => execute host depth stmt s)
    p.statements

section

variable (value : Expr → Exec Value) (run : Stmt → Exec (Option Value))

/-- What more statements add to a row of them. -/
theorem runStatements_append (last : Value) (body : List Stmt) (m : Machine) :
    match (untilReturn (line value run) body).run m with
    | .error stop m' => ∀ more, (runStatements value run last (body ++ more)).run m = .error stop m'
    | .ok (some v) m' => ∀ more, (runStatements value run last (body ++ more)).run m = .ok v m'
    | .ok none m' => ∃ v, ∀ more, (runStatements value run last (body ++ more)).run m
        = (runStatements value run v more).run m' := by
  induction body generalizing last m with
  | nil => exact ⟨last, fun _ => rfl⟩
  | cons stmt body ih =>
    rw [untilReturn]
    simp only [List.cons_append]
    cases stmt with
    | expr e =>
      simp only [runStatements, line, EStateM.run_bind]
      cases (value e).run m with
      | error stop m₁ => exact fun _ => rfl
      | ok v m₁ => exact ih v m₁
    | _ =>
      -- a statement that is no expression runs in both in the same way
      simp only [runStatements, line, EStateM.run_bind]
      cases (run _).run m with
      | error stop m₁ => exact fun _ => rfl
      | ok v? m₁ =>
        cases v? with
        | some v => exact fun _ => rfl
        | none => exact ih .null m₁

/-- The value so far counts only where no statement follows. -/
theorem runStatements_last (last : Value) (more : List Stmt) :
    runStatements value run last more
      = if more.isEmpty then pure last else runStatements value run .null more := by
  cases more with
  | nil => rfl
  | cons stmt more => cases stmt <;> rfl

end

/-- **A longer program ends where its first part does, or goes on with the second.** -/
theorem runProgram_append (host : Host) (depth : Nat) (p q : Program) (s : ScopeId) (m : Machine) :
    match (runToReturn host depth p s).run m with
    | .error stop m' => (runProgram host depth p s).run m = .error stop m' ∧
        (runProgram host depth (p ++ q) s).run m = .error stop m'
    | .ok (some v) m' => (runProgram host depth p s).run m = .ok v m' ∧
        (runProgram host depth (p ++ q) s).run m = .ok v m'
    | .ok none m' => ∃ v, (runProgram host depth p s).run m = .ok v m' ∧
        (runProgram host depth (p ++ q) s).run m
          = if q.statements.isEmpty then .ok v m' else (runProgram host depth q s).run m' := by
  have happend := runStatements_append (fun e => evaluate host depth e s)
    (fun stmt => execute host depth stmt s) .null p.statements m
  have hp : runProgram host depth p s = runStatements (fun e => evaluate host depth e s)
      (fun stmt => execute host depth stmt s) .null (p.statements ++ []) := by
    rw [List.append_nil]
    rfl
  rw [hp, runToReturn]
  cases hrun : (untilReturn (line (fun e => evaluate host depth e s) fun stmt =>
      execute host depth stmt s) p.statements).run m with
  | error stop m' =>
    rw [hrun] at happend
    exact ⟨happend [], happend q.statements⟩
  | ok v? m' =>
    rw [hrun] at happend
    cases v? with
    | some v => exact ⟨happend [], happend q.statements⟩
    | none =>
      obtain ⟨v, happend⟩ := happend
      refine ⟨v, happend [], ?_⟩
      refine (happend q.statements).trans ?_
      rw [runStatements_last]
      split <;> rfl

end Evaluator

/-! ### Earlier effects -/

/-- The machine with earlier effects in front, and another node entered last. -/
def Machine.resumed (past : Array Effect) (current : Option Nat) (m : Machine) : Machine :=
  { m with effects := past ++ m.effects, current := current }

/-- What a run comes to, with earlier effects in front. -/
def resumedResult {α : Type} (past : Array Effect) (current : Option Nat) :
    EStateM.Result Stop Machine α → EStateM.Result Stop Machine α
  | .ok a m => .ok a (m.resumed past current)
  | .error stop m => .error stop (m.resumed past current)

/-- The computation does the same whatever effects came before, and keeps them in front. -/
def Exec.Resumes {α : Type} (good : Value → Prop) (x : Exec α) : Prop :=
  ∀ (past : Array Effect) (current : Option Nat) (m : Machine), m.All good →
    ∃ current', x.run (m.resumed past current) = resumedResult past current' (x.run m)

variable {good : Value → Prop}

namespace Exec.Resumes

variable {α β : Type} {x : Exec α} {f : α → Exec β} {Q : α → Prop}

theorem pure {a : α} : Resumes good (pure a) := fun _ current _ _ => ⟨current, rfl⟩

theorem throw {stop : Stop} : Resumes good (throw stop : Exec α) := fun _ current _ _ => ⟨current, rfl⟩

/-- One computation after the other. -/
theorem bind (hx : Resumes good x) (hkeeps : Exec.Keeps good x Q)
    (hf : ∀ a, Q a → Resumes good (f a)) : Resumes good (x >>= f) := by
  intro past current m hm
  obtain ⟨current₁, hrun⟩ := hx past current m hm
  cases hxm : x.run m with
  | error stop m₁ =>
    rw [hxm] at hrun
    exact ⟨current₁, (Exec.run_bind_error hrun).trans (by rw [Exec.run_bind_error hxm]; rfl)⟩
  | ok a m₁ =>
    rw [hxm] at hrun
    obtain ⟨hm₁, ha⟩ := hkeeps.ok hm hxm
    obtain ⟨current₂, hrest⟩ := hf a ha past current₁ m₁ hm₁
    exact ⟨current₂, (Exec.run_bind_ok hrun).trans (by rw [Exec.run_bind_ok hxm]; exact hrest)⟩

/-- A change of the machine that does not look at effects. -/
theorem modifyGet {f : Machine → α × Machine}
    (h : ∀ past current m, ∃ current',
      f (m.resumed past current) = ((f m).1, (f m).2.resumed past current')) :
    Resumes good (modifyGet f : Exec α) := by
  intro past current m _
  obtain ⟨current', hf⟩ := h past current m
  refine ⟨current', ?_⟩
  show EStateM.Result.ok (f (m.resumed past current)).1 (f (m.resumed past current)).2
    = .ok (f m).1 ((f m).2.resumed past current')
  rw [hf]

end Exec.Resumes

namespace Exec

theorem resumes_enter (pos : Option Nat) : Resumes good (enter pos) :=
  .modifyGet fun _ _ _ => ⟨pos, rfl⟩

theorem resumes_heap : Resumes good heap := fun _ current _ _ => ⟨current, rfl⟩

theorem resumes_freshId : Resumes good freshId := .modifyGet fun _ current _ => ⟨current, rfl⟩

theorem resumes_push (frame : Frame) : Resumes good (push frame) :=
  .modifyGet fun _ current _ => ⟨current, rfl⟩

theorem resumes_pop : Resumes good pop := .modifyGet fun _ current _ => ⟨current, rfl⟩

theorem resumes_alloc (parent : Option ScopeId) (boundary : Bool) :
    Resumes good (alloc parent boundary) :=
  .modifyGet fun _ current _ => ⟨current, rfl⟩

theorem resumes_defineAll (s : ScopeId) (pairs : List (String × Value)) :
    Resumes good (defineAll s pairs) :=
  .modifyGet fun _ current _ => ⟨current, rfl⟩

theorem resumes_assign (s : ScopeId) (name : String) (v : Value) : Resumes good (assign s name v) :=
  .modifyGet fun _ current _ => ⟨current, rfl⟩

theorem resumes_emit (topic message : String) : Resumes good (emit topic message) := by
  refine .modifyGet fun past current m => ⟨current, ?_⟩
  have hpush : (past ++ m.effects).push ⟨topic, message⟩ = past ++ m.effects.push ⟨topic, message⟩ :=
    Array.push_append
  exact congrArg (fun effects => ((), { m with effects := effects, current := current })) hpush

end Exec

/-! ### Natives -/

/-- Natives do the same whatever effects came before. -/
structure Host.Resumes (good : Value → Prop) (host : Host) : Prop where
  values : host.Keeps good
  natives : ∀ (reentry : Reentry) {id : Nat} {name : String} {discards : Bool} {code : Native}
    {bound : List Value} (args : List Value) (s : ScopeId),
    good (.native id name discards code bound) →
      Exec.Resumes good (host reentry code ⟨s, args, bound⟩)

/-- **The builtins write effects and read none.** -/
theorem toolbox_resumes (hvalues : toolbox.Keeps good)
    (hnatives : ∀ id name discards code bound, good (.native id name discards code bound) →
      code.IsBuiltin) : toolbox.Resumes good where
  values := hvalues
  natives reentry id name discards code bound args s hnative := by
    have hemit : ∀ topic message, Exec.Resumes good (do Exec.emit topic message; return Value.absent) :=
      fun topic message =>
        (Exec.resumes_emit topic message).bind (Exec.keeps_emit topic message) fun _ _ => .pure
    rcases hnatives _ _ _ _ _ hnative with rfl | rfl
    · exact hemit _ _
    · exact Exec.resumes_heap.bind Exec.keeps_heap fun _ _ => hemit _ _

/-! ### The evaluator -/

theorem Exec.resumes_composes : Exec.Composes good (Exec.Resumes good) :=
  ⟨fun _ => .pure, fun _ => .throw, fun hx hkeeps hf => hx.bind hkeeps hf⟩

/-- A call that is put in progress does not look at effects. -/
theorem Exec.resumes_opened {frame : Frame} {x : Exec Value} (hargs : ∀ v ∈ frame.args, good v)
    (hkeeps : Exec.Keeps good x good) (hx : Exec.Resumes good x) :
    Exec.Resumes good (do push frame; let v ← x; pop; return v) := by
  refine (resumes_push frame).bind (keeps_push hargs) fun _ _ => hx.bind hkeeps fun v _ => ?_
  exact resumes_pop.bind keeps_pop fun _ _ => .pure

theorem Exec.resumes_carries {host : Host} (hhost : host.Resumes good) :
    Exec.Carries good host (Exec.Resumes good) fun _ x => Exec.Resumes good x where
  toComposes := resumes_composes
  enter := resumes_enter
  heap := resumes_heap
  freshId := resumes_freshId
  alloc := resumes_alloc
  defineAll := resumes_defineAll
  assign := resumes_assign
  opened := resumes_opened
  fault _ _ := .throw
  plain _ hx := hx
  native reentry hreentry frame id name discards code bound s hfunc hf hargs := by
    rw [hfunc] at hf
    have hnative := hhost.values reentry hreentry id name discards code bound frame.args s hf hargs
    exact (hhost.natives reentry frame.args s hf).bind hnative fun _ _ => .pure

namespace Evaluator

/-- The evaluator does the same whatever effects came before. -/
structure Resumes (good : Value → Prop) (host : Host) (depth : Nat) : Prop where
  evaluate : ∀ (e : Expr) (s : ScopeId), Exec.Resumes good (evaluate host depth e s)
  execute : ∀ (stmt : Stmt) (s : ScopeId), Exec.Resumes good (execute host depth stmt s)
  call : ∀ {f : Value} {args : List Value} (s : ScopeId) (site : Option Nat), good f →
    (∀ v ∈ args, good v) → Exec.Resumes good (call host depth f args s site)

variable {host : Host} {depth : Nat}

/-- **The evaluator does the same whatever effects came before, at every depth.** -/
theorem resumes (hgood : Value.Trait good) (hhost : host.Resumes good) (depth : Nat) :
    Resumes good host depth := by
  have hcarried := carried (Exec.resumes_carries hhost) hgood hhost.values depth
  refine ⟨hcarried.evaluate, hcarried.execute, fun {f args} s site hf hargs => ?_⟩
  have hcall := @hcarried.call ⟨"", f, args, 0⟩ s site
  exact hcall hf hargs

theorem Resumes.program (hkeeps : Keeps good host depth) (h : Resumes good host depth) (p : Program)
    (s : ScopeId) : Exec.Resumes good (runProgram host depth p s) :=
  composes_runStatements Exec.resumes_composes (fun e => hkeeps.evaluate e s)
    (fun stmt => hkeeps.execute stmt s) (fun e => h.evaluate e s) (fun stmt => h.execute stmt s) .null
    p.statements

/-! ### Reports -/

/-- Runs a program as a script does that has been parsed. -/
def runTree (host : Host) (depth : Nat) (source : String) (p : Program) : Exec (Report Value) := do
  Exec.clear
  reporting source (runProgram host depth p globalScope)

theorem runScript_eq_runTree (host : Host) (depth : Nat) {source : String} {p : Program}
    (h : Program.parse depth source = .ok p) :
    runScript host (depth + 1) source = runTree host depth source p := by
  rw [runScript, h]
  rfl

/-- What a report makes of a run. -/
theorem run_reporting (source : String) (run : Exec Value) (m : Machine) :
    (reporting source run).run m = match run.run m with
      | .ok v m' => .ok ⟨.ok v, m'.effects.toList⟩ m'
      | .error (.failure f) m' => (reportFailure source f).run m'
      | .error (.fault f) m' => .error (.fault f) m' := by
  rw [reporting]
  cases hrun : run.run m with
  | ok v m' => exact Exec.run_tryCatch_ok (Exec.run_bind_ok hrun)
  | error stop m' =>
    rw [Exec.run_tryCatch_error (Exec.run_bind_error hrun)]
    cases stop <;> rfl

/-- Two reported runs leave the same scopes and calls, and the second has earlier effects in front of those
of the first. -/
def ReportsAlike (past : List Effect) :
    EStateM.Result Stop Machine (Report Value) → EStateM.Result Stop Machine (Report Value) → Prop
  | .ok report m, .ok report' n =>
    n.heap = m.heap ∧ n.frames = m.frames ∧ report'.effects = past ++ report.effects
  | .error stop m, .error stop' n =>
    stop' = stop ∧ n.heap = m.heap ∧ n.frames = m.frames ∧
      n.effects.toList = past ++ m.effects.toList
  | _, _ => False

theorem reporting_resumed {source source' : String} {run run' : Exec Value} {m n : Machine}
    {past : Array Effect} {current : Option Nat}
    (h : run'.run n = resumedResult past current (run.run m)) :
    ReportsAlike past.toList ((reporting source run).run m) ((reporting source' run').run n) := by
  rw [run_reporting, run_reporting, h]
  cases run.run m with
  | ok v m' => exact ⟨rfl, rfl, Array.toList_append⟩
  | error stop m' =>
    cases stop with
    | fault f => exact ⟨rfl, rfl, rfl, Array.toList_append⟩
    | failure f =>
      refine ⟨rfl, rfl, ?_⟩
      show ((past ++ m'.effects).push _).toList = past.toList ++ (m'.effects.push _).toList
      rw [Array.toList_push, Array.toList_push, Array.toList_append, List.append_assoc]
      rfl

end Evaluator

end Klex
