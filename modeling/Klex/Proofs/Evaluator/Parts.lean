import Klex.Proofs.Evaluator.Trait
import Klex.Proofs.Session.Course

/-!
# The parts of a run

A run of the evaluator consists of runs of the same kind, one inside the other: an operand inside an
expression, a statement inside a block, the body inside a call.

* **`Launch`** — a task that is about to run on a machine.
* **`Part`** — **one task starts as a part of another**, everything before it in the other one having come
  to an end.  A part that is a call puts a call in progress.
* **`Reaches`** — a task starts somewhere inside another, with the calls in progress between the two.
* **`Part.error`** — a task stops early if one of its parts does, with the same calls in progress.

Natives are known by what they come to only.  A part of one is a call that it could have made with the
calls in progress that it found, and that leaves those that the native leaves.
-/

namespace Klex

namespace Exec

variable {α β : Type} {x : Exec α} {f : α → Exec β} {m m' : Machine} {stop : Stop}

theorem run_bind_ok {a : α} (h : x.run m = .ok a m') : (x >>= f).run m = (f a).run m' := by
  rw [EStateM.run_bind, h]

theorem run_bind_error (h : x.run m = .error stop m') : (x >>= f).run m = .error stop m' := by
  rw [EStateM.run_bind, h]

theorem bind_eq_ok {b : β} (h : (x >>= f).run m = .ok b m') :
    ∃ a m₁, x.run m = .ok a m₁ ∧ (f a).run m₁ = .ok b m' := by
  rw [EStateM.run_bind] at h
  cases hx : x.run m with
  | error stop m₁ =>
    rw [hx] at h
    exact absurd h (by simp)
  | ok a m₁ =>
    rw [hx] at h
    exact ⟨a, m₁, rfl, h⟩

theorem bind_eq_error (h : (x >>= f).run m = .error stop m') :
    x.run m = .error stop m' ∨ ∃ a m₁, x.run m = .ok a m₁ ∧ (f a).run m₁ = .error stop m' := by
  rw [EStateM.run_bind] at h
  cases hx : x.run m with
  | error stop' m₁ =>
    rw [hx] at h
    obtain ⟨rfl, rfl⟩ := EStateM.Result.error.inj h
    exact .inl rfl
  | ok a m₁ =>
    rw [hx] at h
    exact .inr ⟨a, m₁, rfl, h⟩

theorem run_some_error_iff :
    (do return some (← x) : Exec (Option α)).run m = .error stop m' ↔ x.run m = .error stop m' := by
  rw [EStateM.run_bind]
  cases x.run m <;> simp

end Exec

/-! ### Rows -/

namespace Evaluator

section

variable {α β : Type} {f : α → Exec β} {run : Stmt → Exec (Option Value)} {m m' : Machine}
  {stop : Stop}

/-- A row stops early at the first item that does. -/
theorem each_error_iff {as : List α} :
    (each f as).run m = .error stop m' ↔ ∃ before a after bs m₁, as = before ++ a :: after ∧
      (each f before).run m = .ok bs m₁ ∧ (f a).run m₁ = .error stop m' := by
  induction as generalizing m with
  | nil =>
    constructor
    · intro h
      exact absurd h (by simp [each])
    · rintro ⟨before, a, after, bs, m₁, hsplit, -⟩
      exact absurd hsplit (by simp)
  | cons a as ih =>
    constructor
    · intro h
      rcases Exec.bind_eq_error h with ha | ⟨b, m₁, ha, h⟩
      · exact ⟨[], a, as, [], m, rfl, rfl, ha⟩
      · rcases Exec.bind_eq_error h with has | ⟨bs, m₂, -, h⟩
        · obtain ⟨before, c, after, bs, m₃, rfl, hbefore, hc⟩ := ih.1 has
          refine ⟨a :: before, c, after, b :: bs, m₃, rfl, ?_, hc⟩
          exact (Exec.run_bind_ok ha).trans (Exec.run_bind_ok hbefore)
        · cases h
    · rintro ⟨before, c, after, bs, m₁, hsplit, hbefore, hc⟩
      cases before with
      | nil =>
        obtain ⟨rfl, rfl⟩ := List.cons.inj hsplit
        obtain ⟨-, rfl⟩ := EStateM.Result.ok.inj hbefore
        exact Exec.run_bind_error hc
      | cons b before =>
        obtain ⟨rfl, htail⟩ := List.cons.inj hsplit
        obtain ⟨b, m₂, ha, hbefore⟩ := Exec.bind_eq_ok hbefore
        obtain ⟨bs', m₃, hrest, hbefore⟩ := Exec.bind_eq_ok hbefore
        obtain ⟨-, rfl⟩ := EStateM.Result.ok.inj hbefore
        refine (Exec.run_bind_ok ha).trans (Exec.run_bind_error ?_)
        exact ih.2 ⟨before, c, after, bs', _, htail, hrest, hc⟩

/-- A row of statements ends otherwise than by running out at the first statement that does. -/
theorem untilReturn_eq_iff {body : List Stmt} {r : EStateM.Result Stop Machine (Option Value)}
    (hr : ∀ m', r ≠ .ok none m') :
    (untilReturn run body).run m = r ↔ ∃ before stmt after m₁, body = before ++ stmt :: after ∧
      (untilReturn run before).run m = .ok none m₁ ∧ (run stmt).run m₁ = r := by
  induction body generalizing m with
  | nil =>
    constructor
    · intro h
      exact absurd h.symm (hr m)
    · rintro ⟨before, stmt, after, m₁, hsplit, -⟩
      exact absurd hsplit (by simp)
  | cons stmt body ih =>
    rw [untilReturn, EStateM.run_bind]
    constructor
    · intro h
      cases hstmt : (run stmt).run m with
      | error stop' m₁ =>
        rw [hstmt] at h
        exact ⟨[], stmt, body, m, rfl, rfl, hstmt.trans h⟩
      | ok v? m₁ =>
        rw [hstmt] at h
        cases v? with
        | some v => exact ⟨[], stmt, body, m, rfl, rfl, hstmt.trans h⟩
        | none =>
          obtain ⟨before, stmt', after, m₂, rfl, hbefore, hrun⟩ := ih.1 h
          refine ⟨stmt :: before, stmt', after, m₂, rfl, ?_, hrun⟩
          rw [untilReturn, Exec.run_bind_ok hstmt]
          exact hbefore
    · rintro ⟨before, stmt', after, m₁, hsplit, hbefore, hrun⟩
      cases before with
      | nil =>
        obtain ⟨rfl, rfl⟩ := List.cons.inj hsplit
        obtain ⟨-, rfl⟩ := EStateM.Result.ok.inj hbefore
        rw [hrun]
        cases r with
        | error stop' m' => rfl
        | ok v? m' =>
          cases v? with
          | some v => rfl
          | none => exact absurd rfl (hr m')
      | cons first before =>
        obtain ⟨rfl, htail⟩ := List.cons.inj hsplit
        obtain ⟨v?, m₂, hstmt, hbefore⟩ := Exec.bind_eq_ok hbefore
        rw [hstmt]
        cases v? with
        | some v => cases hbefore
        | none => exact ih.2 ⟨before, stmt', after, m₁, htail, hbefore, hrun⟩

/-- A statement of a program, whose value counts only where it returns. -/
def line (value : Expr → Exec Value) (run : Stmt → Exec (Option Value)) : Stmt → Exec (Option Value)
  | .expr e => do
    let _ ← value e
    return none
  | stmt => run stmt

/-- Programs run like rows of statements, and differ in the value only. -/
theorem runStatements_like (value : Expr → Exec Value) (run : Stmt → Exec (Option Value))
    (last : Value) (body : List Stmt) (m : Machine) :
    match (untilReturn (line value run) body).run m with
    | .ok _ m' => ∃ v, (runStatements value run last body).run m = .ok v m'
    | .error stop m' => (runStatements value run last body).run m = .error stop m' := by
  induction body generalizing last m with
  | nil => exact ⟨last, rfl⟩
  | cons stmt body ih =>
    rw [untilReturn]
    cases stmt with
    | expr e =>
      rw [runStatements, line, EStateM.run_bind, EStateM.run_bind, EStateM.run_bind]
      cases (value e).run m with
      | error stop' m₁ => rfl
      | ok v m₁ => exact ih v m₁
    | _ =>
      -- a statement that is no expression runs in both in the same way
      simp only [line, runStatements, EStateM.run_bind]
      cases (run _).run m with
      | error stop' m₁ => rfl
      | ok v? m₁ =>
        cases v? with
        | some v => exact ⟨v, rfl⟩
        | none => exact ih .null m₁

end

theorem call_native_error {host : Host} {depth id : Nat} {name : String} {discards : Bool}
    {code : Native} {bound args : List Value} {s : ScopeId} {site : Option Nat} {m m' : Machine}
    {stop : Stop} (h : (host (reentry host depth) code ⟨s, args, bound⟩).run m = .error stop m') :
    (call host (depth + 1) (.native id name discards code bound) args s site).run m
      = .error stop m' := by
  rw [call_native]
  exact Exec.run_bind_error h

end Evaluator

/-! ### Launches -/

/-- A task that is about to run. -/
structure Launch where
  depth : Nat
  task : Task
  machine : Machine

/-- What the task comes to. -/
def Launch.run (host : Host) (a : Launch) : EStateM.Result Stop Machine (Option Value) :=
  (a.task.run host a.depth).run a.machine

/-- The task does not come to an end. -/
def Launch.Stops (host : Host) (a : Launch) : Prop := ∃ stop m', a.run host = .error stop m'

/-- What running a statement of a program means. -/
def Stmt.task (s : ScopeId) : Stmt → Task
  | .expr e => .evaluate e s
  | stmt => .execute stmt s

/-- A call of a native's that stops early, with the calls in progress before and after it. -/
structure Reentry.Abandons (good : Value → Prop) (r : Reentry) (f : Value) (args : List Value)
    (s : ScopeId) (m : Machine) (before after : List Frame) : Prop where
  callee : good f
  passed : ∀ v ∈ args, good v
  machine : m.All good
  starts : m.frames = before
  stops : ∃ stop m', (r.call f args s).run m = .error stop m' ∧ m'.frames = after

open Evaluator

/-- The second task starts as a part of the first, with these calls in progress between the two. -/
inductive Part (good : Value → Prop) (host : Host) : List Frame → Launch → Launch → Prop
  | group {d pos : Nat} {inner : Expr} {s : ScopeId} {m : Machine} :
      Part good host [] ⟨d + 1, .evaluate (.group pos inner) s, m⟩
        ⟨d, .evaluate inner s, (Exec.enter (some pos)).after m⟩
  | operand {d pos : Nat} {operand : Expr} {s : ScopeId} {m : Machine} :
      Part good host [] ⟨d + 1, .evaluate (.negate pos operand) s, m⟩
        ⟨d, .evaluate operand s, (Exec.enter (some pos)).after m⟩
  | left {d pos : Nat} {op : String} {left right : Expr} {s : ScopeId} {m : Machine} :
      Part good host [] ⟨d + 1, .evaluate (.binary pos op left right) s, m⟩
        ⟨d, .evaluate left s, (Exec.enter (some pos)).after m⟩
  | right {d pos : Nat} {op : String} {left right : Expr} {s : ScopeId} {m m₁ : Machine} {a : Value} :
      (evaluate host d left s).run ((Exec.enter (some pos)).after m) = .ok a m₁ →
      Part good host [] ⟨d + 1, .evaluate (.binary pos op left right) s, m⟩
        ⟨d, .evaluate right s, m₁⟩
  | callee {d pos : Nat} {callee : Expr} {args : List Expr} {s : ScopeId} {m : Machine} :
      Part good host [] ⟨d + 1, .evaluate (.call pos callee args) s, m⟩
        ⟨d, .evaluate callee s, (Exec.enter (some pos)).after m⟩
  | argument {d pos : Nat} {callee arg : Expr} {args before after : List Expr} {s : ScopeId}
      {m m₁ m₂ : Machine} {f : Value} {values : List Value} :
      (evaluate host d callee s).run ((Exec.enter (some pos)).after m) = .ok f m₁ →
      f.isCallable = true → args = before ++ arg :: after →
      (each (fun arg => evaluate host d arg s) before).run m₁ = .ok values m₂ →
      Part good host [] ⟨d + 1, .evaluate (.call pos callee args) s, m⟩ ⟨d, .evaluate arg s, m₂⟩
  /-- The call itself, once the callee and all arguments have been evaluated. -/
  | applied {d pos : Nat} {callee : Expr} {args : List Expr} {s : ScopeId} {m m₁ m₂ : Machine}
      {f : Value} {values : List Value} :
      (evaluate host d callee s).run ((Exec.enter (some pos)).after m) = .ok f m₁ →
      f.isCallable = true →
      (each (fun arg => evaluate host d arg s) args).run m₁ = .ok values m₂ →
      Part good host [⟨calleeName callee, f, values, pos⟩]
        ⟨d + 1, .evaluate (.call pos callee args) s, m⟩
        ⟨d, .call f values s (some pos), (Exec.push ⟨calleeName callee, f, values, pos⟩).after m₂⟩
  | single {d : Nat} {e : Expr} {s : ScopeId} {m : Machine} :
      Part good host [] ⟨d + 1, .execute (.expr e) s, m⟩
        ⟨d, .evaluate e s, (Exec.enter (some e.pos)).after m⟩
  | assigned {d pos : Nat} {target : String} {e : Expr} {s : ScopeId} {m : Machine} :
      Part good host [] ⟨d + 1, .execute (.assign pos target e) s, m⟩
        ⟨d, .evaluate e s, (Exec.enter (some pos)).after m⟩
  | returned {d pos : Nat} {e : Expr} {s : ScopeId} {m : Machine} :
      Part good host [] ⟨d + 1, .execute (.ret pos e) s, m⟩
        ⟨d, .evaluate e s, (Exec.enter (some pos)).after m⟩
  | member {d : Nat} {pos : Option Nat} {body before after : List Stmt} {stmt : Stmt}
      {s inner : ScopeId} {m m₁ m₂ : Machine} :
      (Exec.alloc (some s) false).run ((Exec.enter pos).after m) = .ok inner m₁ →
      body = before ++ stmt :: after →
      (untilReturn (fun stmt => execute host d stmt inner) before).run m₁ = .ok none m₂ →
      Part good host [] ⟨d + 1, .execute (.block pos body) s, m⟩ ⟨d, .execute stmt inner, m₂⟩
  | test {d pos : Nat} {test : Expr} {yes : Stmt} {no : Option Stmt} {s : ScopeId} {m : Machine} :
      Part good host [] ⟨d + 1, .execute (.cond pos test yes no) s, m⟩
        ⟨d, .evaluate test s, (Exec.enter (some pos)).after m⟩
  | yes {d pos : Nat} {test : Expr} {yes : Stmt} {no : Option Stmt} {s : ScopeId} {m m₁ : Machine}
      {v : Value} :
      (evaluate host d test s).run ((Exec.enter (some pos)).after m) = .ok v m₁ →
      v.isTruthy = true →
      Part good host [] ⟨d + 1, .execute (.cond pos test yes no) s, m⟩ ⟨d, .execute yes s, m₁⟩
  | no {d pos : Nat} {test : Expr} {yes no : Stmt} {s : ScopeId} {m m₁ : Machine} {v : Value} :
      (evaluate host d test s).run ((Exec.enter (some pos)).after m) = .ok v m₁ →
      v.isTruthy = false →
      Part good host [] ⟨d + 1, .execute (.cond pos test yes (some no)) s, m⟩
        ⟨d, .execute no s, m₁⟩
  | body {d id : Nat} {params : List String} {body : Stmt} {home s inner : ScopeId}
      {args : List Value} {site : Option Nat} {m m₁ : Machine} :
      args.length ≤ params.length →
      (Exec.alloc (some home) true).run m = .ok inner m₁ →
      Part good host [] ⟨d + 1, .call (.closure id params body home) args s site, m⟩
        ⟨d, .execute body inner, (Exec.defineAll inner (params.zip args)).after m₁⟩
  /-- A call that a native makes and that stops early. -/
  | reentered {d id : Nat} {name : String} {discards : Bool} {code : Native}
      {bound args args' : List Value} {s s' : ScopeId} {site : Option Nat} {m m' m₁ : Machine}
      {stop : Stop} {f : Value} :
      (host (reentry host d) code ⟨s, args, bound⟩).run m = .error stop m' →
      (reentry host d).Abandons good f args' s' m₁ m.frames m'.frames →
      Part good host [] ⟨d + 1, .call (.native id name discards code bound) args s site, m⟩
        ⟨d, .call f args' s' none, m₁⟩
  | line {d : Nat} {p : Program} {before after : List Stmt} {stmt : Stmt} {s : ScopeId}
      {m m₁ : Machine} :
      p.statements = before ++ stmt :: after →
      (untilReturn (line (fun e => evaluate host d e s) fun stmt => execute host d stmt s)
        before).run m = .ok none m₁ →
      Part good host [] ⟨d, .program p s, m⟩ ⟨d, stmt.task s, m₁⟩

/-- The second task starts inside the first, with these calls in progress between the two. -/
inductive Reaches (good : Value → Prop) (host : Host) : List Frame → Launch → Launch → Prop
  | refl {a : Launch} : Reaches good host [] a a
  | step {F G : List Frame} {a b c : Launch} :
      Part good host F a b → Reaches good host G b c → Reaches good host (F ++ G) a c

section

variable {good : Value → Prop} {host : Host} {F : List Frame} {a b : Launch}

end

/-! ### Early ends of parts -/

section

variable {good : Value → Prop} {host : Host} {F : List Frame} {a b : Launch} {stop : Stop}
  {m m' : Machine} {depth : Nat}

theorem Launch.run_evaluate_error_iff {e : Expr} {s : ScopeId} :
    Launch.run host ⟨depth, .evaluate e s, m⟩ = .error stop m'
      ↔ (evaluate host depth e s).run m = .error stop m' :=
  Exec.run_some_error_iff

theorem Launch.run_call_error_iff {f : Value} {args : List Value} {s : ScopeId} {site : Option Nat} :
    Launch.run host ⟨depth, .call f args s site, m⟩ = .error stop m'
      ↔ (call host depth f args s site).run m = .error stop m' :=
  Exec.run_some_error_iff

theorem Evaluator.line_error_iff {stmt : Stmt} {s : ScopeId} :
    (line (fun e => evaluate host depth e s) (fun stmt => execute host depth stmt s) stmt).run m
      = .error stop m' ↔ Launch.run host ⟨depth, stmt.task s, m⟩ = .error stop m' := by
  cases stmt with
  | expr e =>
    rw [line, EStateM.run_bind, Stmt.task, Launch.run_evaluate_error_iff]
    cases (evaluate host depth e s).run m <;> simp
  | block pos body => rfl
  | ret pos e => rfl
  | assign pos target e => rfl
  | cond pos test yes no => rfl

/-- An early end of a part of an expression is that of the expression. -/
theorem Part.error_evaluate {e : Expr} {s : ScopeId} (h : Part good host F ⟨depth, .evaluate e s, m⟩ b)
    (hb : b.run host = .error stop m') : (evaluate host depth e s).run m = .error stop m' := by
  cases h with
  | group =>
    unfold evaluate
    exact (Exec.run_bind_ok rfl).trans (Launch.run_evaluate_error_iff.1 hb)
  | operand | left | callee =>
    unfold evaluate
    refine (Exec.run_bind_ok rfl).trans ?_
    exact Exec.run_bind_error (Launch.run_evaluate_error_iff.1 hb)
  | right hleft =>
    unfold evaluate
    refine (Exec.run_bind_ok rfl).trans ((Exec.run_bind_ok hleft).trans ?_)
    exact Exec.run_bind_error (Launch.run_evaluate_error_iff.1 hb)
  | argument hcallee hcallable hsplit hbefore =>
    unfold evaluate
    refine (Exec.run_bind_ok rfl).trans ((Exec.run_bind_ok hcallee).trans ?_)
    rw [if_pos hcallable]
    refine Exec.run_bind_error (each_error_iff.2 ⟨_, _, _, _, _, hsplit, hbefore, ?_⟩)
    exact Launch.run_evaluate_error_iff.1 hb
  | applied hcallee hcallable hargs =>
    unfold evaluate
    refine (Exec.run_bind_ok rfl).trans ((Exec.run_bind_ok hcallee).trans ?_)
    rw [if_pos hcallable]
    refine (Exec.run_bind_ok hargs).trans ((Exec.run_bind_ok rfl).trans ?_)
    exact Exec.run_bind_error (Launch.run_call_error_iff.1 hb)

/-- An early end of a part of a statement is that of the statement. -/
theorem Part.error_execute {stmt : Stmt} {s : ScopeId}
    (h : Part good host F ⟨depth, .execute stmt s, m⟩ b) (hb : b.run host = .error stop m') :
    (execute host depth stmt s).run m = .error stop m' := by
  cases h with
  | single | assigned | returned | test =>
    unfold execute
    refine (Exec.run_bind_ok rfl).trans ?_
    exact Exec.run_bind_error (Launch.run_evaluate_error_iff.1 hb)
  | member halloc hsplit hbefore =>
    unfold execute
    refine (Exec.run_bind_ok rfl).trans ((Exec.run_bind_ok halloc).trans ?_)
    exact (untilReturn_eq_iff (by simp)).2 ⟨_, _, _, _, hsplit, hbefore, hb⟩
  | yes htest htruthy =>
    unfold execute
    refine (Exec.run_bind_ok rfl).trans ((Exec.run_bind_ok htest).trans ?_)
    rw [if_pos htruthy]
    exact hb
  | no htest htruthy =>
    unfold execute
    refine (Exec.run_bind_ok rfl).trans ((Exec.run_bind_ok htest).trans ?_)
    rw [if_neg (by simp [htruthy])]
    exact hb

/-- A task stops early if one of its parts does, with the same calls in progress. -/
theorem Part.error (h : Part good host F a b) (hb : b.run host = .error stop m') :
    ∃ stop' m'', a.run host = .error stop' m'' ∧ m''.frames = m'.frames := by
  obtain ⟨depth, task, m⟩ := a
  cases task with
  | evaluate e s =>
    exact ⟨stop, m', Launch.run_evaluate_error_iff.2 (h.error_evaluate hb), rfl⟩
  | execute stmt s => exact ⟨stop, m', h.error_execute hb, rfl⟩
  | call f args s site =>
    cases h with
    | body hcount halloc =>
      refine ⟨stop, m', Launch.run_call_error_iff.2 ?_, rfl⟩
      rw [call, callClosure, if_neg (Nat.not_lt.2 hcount)]
      refine (Exec.run_bind_ok halloc).trans ((Exec.run_bind_ok rfl).trans ?_)
      exact Exec.run_bind_error hb
    | reentered hnative habandons =>
      obtain ⟨stop', m'', hcall, hafter⟩ := habandons.stops
      have hsame : EStateM.Result.error stop' m'' = .error stop m' :=
        hcall.symm.trans (Launch.run_call_error_iff.1 hb)
      obtain ⟨-, rfl⟩ := EStateM.Result.error.inj hsame
      exact ⟨_, _, Launch.run_call_error_iff.2 (call_native_error hnative), hafter.symm⟩
  | program p s =>
    cases h with
    | line hsplit hbefore =>
      refine ⟨stop, m', Exec.run_some_error_iff.2 ?_, rfl⟩
      have hrow := (untilReturn_eq_iff (by simp)).2
        ⟨_, _, _, _, hsplit, hbefore, line_error_iff.2 hb⟩
      have hlike := runStatements_like (fun e => evaluate host depth e s)
        (fun stmt => execute host depth stmt s) .null p.statements m
      rw [hrow] at hlike
      exact hlike
  | script source => cases h

end

/-! ### Properties of values -/

section

variable {good : Value → Prop} {host : Host} {F : List Frame} {a b : Launch} {m : Machine}

/-- A call has a callee and arguments with the property. -/
def Task.Good (good : Value → Prop) : Task → Prop
  | .call f args _ _ => good f ∧ ∀ v ∈ args, good v
  | _ => True

/-- Every value that there is has the property. -/
structure Launch.Good (good : Value → Prop) (a : Launch) : Prop where
  task : a.task.Good good
  machine : a.machine.All good

theorem Exec.Keeps.after {α : Type} {x : Exec α} {Q : α → Prop} (h : Exec.Keeps good x Q)
    (hm : m.All good) : (x.after m).All good := by
  rw [Exec.after]
  cases hx : x.run m with
  | ok v m' => exact (h.ok hm hx).1
  | error stop m' => exact h.error hm hx

theorem Evaluator.keeps_line {depth : Nat} (h : Evaluator.Keeps good host depth) (s : ScopeId)
    (stmt : Stmt) :
    Exec.Keeps good (Evaluator.line (fun e => evaluate host depth e s)
      (fun stmt => execute host depth stmt s) stmt) (Value.AnyGood good) := by
  cases stmt with
  | expr e => exact (h.evaluate e s).bind fun _ _ => .pure (by simp [Value.AnyGood])
  | block pos body => exact h.execute _ s
  | ret pos e => exact h.execute _ s
  | assign pos target e => exact h.execute _ s
  | cond pos test yes no => exact h.execute _ s

/-- Parts start on machines whose values have the property. -/
theorem Part.start_good (hgood : Value.Trait good) (hhost : host.Keeps good) (h : Part good host F a b)
    (ha : a.Good good) : b.Good good := by
  obtain ⟨htask, hm⟩ := ha
  have hkeeps := Evaluator.keeps hgood hhost
  cases h with
  | group | operand | left | callee | single | assigned | returned | test =>
    exact ⟨trivial, (Exec.keeps_enter _).after hm⟩
  | right hleft =>
    exact ⟨trivial, (((hkeeps _).evaluate _ _).ok ((Exec.keeps_enter _).after hm) hleft).1⟩
  | argument hcallee _ _ hbefore =>
    have hm₁ := (((hkeeps _).evaluate _ _).ok ((Exec.keeps_enter _).after hm) hcallee).1
    exact ⟨trivial, ((keeps_each (fun e => (hkeeps _).evaluate e _) _).ok hm₁ hbefore).1⟩
  | applied hcallee _ hargs =>
    have hf := ((hkeeps _).evaluate _ _).ok ((Exec.keeps_enter _).after hm) hcallee
    have hvalues := (keeps_each (fun e => (hkeeps _).evaluate e _) _).ok hf.1 hargs
    exact ⟨⟨hf.2, hvalues.2⟩, (Exec.keeps_push hvalues.2).after hvalues.1⟩
  | member halloc _ hbefore =>
    have hm₁ := ((Exec.keeps_alloc _ _).ok ((Exec.keeps_enter _).after hm) halloc).1
    exact ⟨trivial, ((keeps_untilReturn (fun stmt => (hkeeps _).execute stmt _) _).ok hm₁ hbefore).1⟩
  | yes htest _ | no htest _ =>
    exact ⟨trivial, (((hkeeps _).evaluate _ _).ok ((Exec.keeps_enter _).after hm) htest).1⟩
  | body _ halloc =>
    have hm₁ := ((Exec.keeps_alloc _ _).ok hm halloc).1
    refine ⟨trivial, (Exec.keeps_defineAll _ fun p hp => ?_).after hm₁⟩
    exact htask.2 p.2 (List.of_mem_zip hp).2
  | reentered _ habandons => exact ⟨⟨habandons.callee, habandons.passed⟩, habandons.machine⟩
  | @line _ _ _ _ stmt _ _ _ _ hbefore =>
    have hm₁ := ((keeps_untilReturn (keeps_line (hkeeps _) _) _).ok hm hbefore).1
    refine ⟨?_, hm₁⟩
    cases stmt <;> trivial

theorem Reaches.start_good (hgood : Value.Trait good) (hhost : host.Keeps good)
    (h : Reaches good host F a b) (ha : a.Good good) : b.Good good := by
  induction h with
  | refl => exact ha
  | step hpart _ ih => exact ih (hpart.start_good hgood hhost ha)

end

end Klex
