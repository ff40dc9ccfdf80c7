import Klex.Proofs.Evaluator.Carrying
import Klex.Proofs.Evaluator.Parts

/-!
# The calls in progress

A call is closed when it gives a value, and stays open when it stops early.

* **`Launch.InProgress`** — the calls in progress when a task stops early: those on the way to the task
  inside it that stops without a part of its own that does.
* **`Host.Orderly`** — natives that return leave the calls in progress as they found them; natives that
  stop early leave them so as well, or as a call that they made left them.
* **`Launch.ends`** — **one level of the evaluator: a task that comes to an end leaves the calls in progress
  as they were, and so does one that stops early, unless a part of it does.**
* **`Launch.calls`** — **a task that stops early leaves exactly the calls in progress on top of those that
  it found.**
* **`toolbox_orderly`** — so do all natives of the toolbox but those that catch an early end or clear the
  calls.
-/

namespace Klex

open Evaluator

variable {good : Value → Prop} {host : Host}

/-! ### Computations that neither open nor close calls -/

/-- The computation leaves the calls in progress as they are, whether it ends or stops early. -/
def Exec.Steady {α : Type} (x : Exec α) : Prop := ∀ m, (x.after m).frames = m.frames

namespace Exec.Steady

variable {α β : Type} {x : Exec α} {f : α → Exec β} {m m' : Machine}

theorem ok (h : Steady x) {a : α} (hx : x.run m = .ok a m') : m'.frames = m.frames := by
  have hframes := h m
  rwa [Exec.after, hx] at hframes

theorem error (h : Steady x) {stop : Stop} (hx : x.run m = .error stop m') : m'.frames = m.frames := by
  have hframes := h m
  rwa [Exec.after, hx] at hframes

theorem pure {a : α} : Steady (pure a) := fun _ => rfl

theorem throw {stop : Stop} : Steady (throw stop : Exec α) := fun _ => rfl

theorem modifyGet {f : Machine → α × Machine} (h : ∀ m, (f m).2.frames = m.frames) :
    Steady (modifyGet f : Exec α) := h

theorem bind (hx : Steady x) (hf : ∀ a, Steady (f a)) : Steady (x >>= f) := by
  intro m
  cases hxm : x.run m with
  | error stop m₁ =>
    rw [Exec.after, Exec.run_bind_error hxm]
    exact hx.error hxm
  | ok a m₁ =>
    rw [Exec.after, Exec.run_bind_ok hxm]
    exact (hf a m₁).trans (hx.ok hxm)

end Exec.Steady

namespace Exec

theorem steady_get : Steady get := fun _ => rfl

theorem steady_heap : Steady heap := fun _ => rfl

theorem steady_setHeap (h : Heap) : Steady (setHeap h) := fun _ => rfl

theorem steady_alloc (parent : Option ScopeId) (boundary : Bool) : Steady (alloc parent boundary) :=
  fun _ => rfl

theorem steady_assign (s : ScopeId) (name : String) (v : Value) : Steady (assign s name v) :=
  fun _ => rfl

theorem steady_freshId : Steady freshId := fun _ => rfl

theorem steady_emit (topic message : String) : Steady (emit topic message) := fun _ => rfl

theorem steady_fail {α : Type} (cause : Cause) (pos : Option Nat) : Steady (fail cause pos : Exec α) :=
  .throw

theorem steady_ofStop {α : Type} (r : Except Stop α) : Steady (ofStop r) := by
  cases r with
  | ok a => exact .pure
  | error stop => exact .throw

theorem steady_ofFault {α : Type} (r : Except Fault α) : Steady (ofFault r) := by
  cases r with
  | ok a => exact .pure
  | error f => exact .throw

end Exec

theorem Evaluator.steady_operate (pos : Nat) (op : String) (a b : Value) :
    Exec.Steady (operate pos op a b) := by
  refine (Exec.steady_ofFault _).bind fun v? => ?_
  cases v? with
  | some v => exact .pure
  | none => exact Exec.steady_fail _ _

/-- The computation leaves the calls in progress as they are, if it comes to an end. -/
def Exec.Restores {α : Type} (good : Value → Prop) (x : Exec α) : Prop :=
  ∀ m : Machine, m.All good → ∀ a m', x.run m = .ok a m' → m'.frames = m.frames

section

variable {α β : Type} {x : Exec α} {f : α → Exec β} {Q : α → Prop} {m m' : Machine}

theorem Exec.Steady.restores (h : x.Steady) : x.Restores good := fun _ _ _ _ hx => h.ok hx

theorem Exec.Restores.ok (h : x.Restores good) (hm : m.All good) {a : α} (hx : x.run m = .ok a m') :
    m'.frames = m.frames :=
  h m hm a m' hx

theorem Exec.Restores.bind (hx : x.Restores good) (hkeeps : Exec.Keeps good x Q)
    (hf : ∀ a, Q a → (f a).Restores good) : (x >>= f).Restores good := by
  intro m hm b m' h
  obtain ⟨a, m₁, hxm, hfm⟩ := Exec.bind_eq_ok h
  obtain ⟨hm₁, ha⟩ := hkeeps.ok hm hxm
  exact ((hf a ha).ok hm₁ hfm).trans (hx.ok hm hxm)

end

theorem Exec.restores_composes : Exec.Composes good (Exec.Restores good) :=
  ⟨fun _ => Exec.Steady.pure.restores, fun _ => Exec.Steady.throw.restores,
    fun hx hkeeps hf => hx.bind hkeeps hf⟩

/-! ### Natives -/

/-- Calls on behalf of natives that come to an end leave the calls in progress as they were. -/
def Reentry.Orderly (good : Value → Prop) (r : Reentry) : Prop :=
  ∀ {f : Value} {args : List Value} (s : ScopeId), good f → (∀ v ∈ args, good v) →
    Exec.Restores good (r.call f args s)

/-- What natives do to the calls in progress. -/
structure Host.Orderly (good : Value → Prop) (host : Host) : Prop where
  values : host.Keeps good
  /-- A native that returns leaves the calls as it found them. -/
  returns : ∀ {reentry : Reentry}, reentry.Keeps good → reentry.Orderly good →
    ∀ {id : Nat} {name : String} {discards : Bool} {code : Native} {bound args : List Value}
      (s : ScopeId), good (.native id name discards code bound) → (∀ v ∈ args, good v) →
      Exec.Restores good (host reentry code ⟨s, args, bound⟩)
  /-- One that stops early does so too, or leaves what a call left that it made and that stopped. -/
  stops : ∀ {reentry : Reentry}, reentry.Keeps good → reentry.Orderly good →
    ∀ {id : Nat} {name : String} {discards : Bool} {code : Native} {bound args : List Value}
      {s : ScopeId}, good (.native id name discards code bound) → (∀ v ∈ args, good v) →
      ∀ {m m' : Machine} {stop : Stop}, m.All good →
        (host reentry code ⟨s, args, bound⟩).run m = .error stop m' →
        m'.frames = m.frames ∨
          ∃ f args' s' m₁, reentry.Abandons good f args' s' m₁ m.frames m'.frames

/-! ### One level of the evaluator -/

/-- The calls in progress are as they were, unless a part of the task stops early. -/
def Launch.Ends {α : Type} (good : Value → Prop) (host : Host) (a : Launch) :
    EStateM.Result Stop Machine α → Prop
  | .ok _ m' => m'.frames = a.machine.frames
  | .error _ m' =>
    m'.frames = a.machine.frames ∨ ∃ F b, Part good host F a b ∧ b.Stops host

namespace Launch.Ends

variable {α β : Type} {a : Launch} {x : Exec α} {f : α → Exec β} {m : Machine} {d : Nat}
  {F : List Frame}

theorem steady (hx : x.Steady) (hm : m.frames = a.machine.frames) : a.Ends good host (x.run m) := by
  cases hxm : x.run m with
  | ok v m' => exact (hx.ok hxm).trans hm
  | error stop m' => exact .inl ((hx.error hxm).trans hm)

/-- Once a part has come to an end, the rest of the task decides. -/
theorem bind (hx : ∀ stop m', x.run m = .error stop m' → ∃ F b, Part good host F a b ∧ b.Stops host)
    (hf : ∀ v m', x.run m = .ok v m' → a.Ends good host ((f v).run m')) :
    a.Ends good host ((x >>= f).run m) := by
  cases hxm : x.run m with
  | error stop m' =>
    rw [Exec.run_bind_error hxm]
    exact .inr (hx stop m' hxm)
  | ok v m' =>
    rw [Exec.run_bind_ok hxm]
    exact hf v m' hxm

theorem evaluate {e : Expr} {s : ScopeId} {f : Value → Exec β}
    (hpart : Part good host F a ⟨d, .evaluate e s, m⟩)
    (hf : ∀ v m', (Evaluator.evaluate host d e s).run m = .ok v m' → a.Ends good host ((f v).run m')) :
    a.Ends good host ((Evaluator.evaluate host d e s >>= f).run m) :=
  bind (fun stop m' h => ⟨F, _, hpart, stop, m', Launch.run_evaluate_error_iff.2 h⟩) hf

/-- A part with which the task ends. -/
theorem last {task : Task} {r : EStateM.Result Stop Machine α}
    (hpart : Part good host F a ⟨d, task, m⟩) (hm : m.frames = a.machine.frames)
    (hok : ∀ v m', r = .ok v m' → m'.frames = m.frames)
    (herror : ∀ stop m', r = .error stop m' → Launch.run host ⟨d, task, m⟩ = .error stop m') :
    a.Ends good host r := by
  cases r with
  | ok v m' => exact (hok v m' rfl).trans hm
  | error stop m' => exact .inr ⟨F, _, hpart, stop, m', herror stop m' rfl⟩

/-- A row of statements with which the task ends. -/
theorem row {run : Stmt → Exec (Option Value)} {body : List Stmt} (hm : m.frames = a.machine.frames)
    (hok : ∀ v? m', (untilReturn run body).run m = .ok v? m' → m'.frames = m.frames)
    (hparts : ∀ before stmt after m₁, body = before ++ stmt :: after →
      (untilReturn run before).run m = .ok none m₁ → ∀ stop m', (run stmt).run m₁ = .error stop m' →
        ∃ F b, Part good host F a b ∧ b.Stops host) :
    a.Ends good host ((untilReturn run body).run m) := by
  cases hrow : (untilReturn run body).run m with
  | ok v? m' => exact (hok v? m' hrow).trans hm
  | error stop m' =>
    obtain ⟨before, stmt, after, m₁, hsplit, hbefore, h⟩ := (untilReturn_eq_iff (by simp)).1 hrow
    exact .inr (hparts before stmt after m₁ hsplit hbefore stop m' h)

end Launch.Ends

namespace Evaluator

/-- What comes to an end leaves the calls in progress as they were. -/
structure Restores (good : Value → Prop) (host : Host) (depth : Nat) : Prop where
  evaluate : ∀ (e : Expr) (s : ScopeId), Exec.Restores good (evaluate host depth e s)
  execute : ∀ (stmt : Stmt) (s : ScopeId), Exec.Restores good (execute host depth stmt s)
  call : ∀ {f : Value} {args : List Value} (s : ScopeId) (site : Option Nat), good f →
    (∀ v ∈ args, good v) → Exec.Restores good (call host depth f args s site)

section

variable {depth : Nat}

theorem Restores.args (hkeeps : Keeps good host depth) (h : Restores good host depth) (s : ScopeId)
    (es : List Expr) : Exec.Restores good (each (fun e => Evaluator.evaluate host depth e s) es) :=
  composes_each Exec.restores_composes (fun e => hkeeps.evaluate e s) (fun e => h.evaluate e s) es

theorem Restores.members (hkeeps : Keeps good host depth) (h : Restores good host depth) (s : ScopeId)
    (body : List Stmt) :
    Exec.Restores good (untilReturn (fun stmt => Evaluator.execute host depth stmt s) body) :=
  composes_untilReturn Exec.restores_composes (fun stmt => hkeeps.execute stmt s)
    (fun stmt => h.execute stmt s) body

theorem Restores.lines (hkeeps : Keeps good host depth) (h : Restores good host depth) (s : ScopeId)
    (body : List Stmt) :
    Exec.Restores good (untilReturn (line (fun e => Evaluator.evaluate host depth e s)
      fun stmt => Evaluator.execute host depth stmt s) body) := by
  refine composes_untilReturn Exec.restores_composes (keeps_line hkeeps s) (fun stmt => ?_) body
  cases stmt with
  | expr e =>
    exact (h.evaluate e s).bind (hkeeps.evaluate e s) fun _ _ => Exec.Steady.pure.restores
  | block pos body => exact h.execute _ s
  | ret pos e => exact h.execute _ s
  | assign pos target e => exact h.execute _ s
  | cond pos test yes no => exact h.execute _ s

/-- A call that comes to an end is closed again. -/
theorem Restores.ends_opened (ih : Restores good host depth) {a : Launch} {f : Value}
    {values : List Value} {name : String} {pos : Nat} {s : ScopeId} {m : Machine}
    (hpart : Part good host [⟨name, f, values, pos⟩] a
      ⟨depth, .call f values s (some pos), (Exec.push ⟨name, f, values, pos⟩).after m⟩)
    (hf : good f) (hvalues : ∀ v ∈ values, good v) (hm : m.All good)
    (hframes : m.frames = a.machine.frames) :
    a.Ends good host ((do
      Exec.push ⟨name, f, values, pos⟩
      let result ← Evaluator.call host depth f values s (some pos)
      Exec.pop
      return result : Exec Value).run m) := by
  have hpush : Exec.Keeps good (Exec.push ⟨name, f, values, pos⟩) fun _ => True :=
    Exec.keeps_push hvalues
  rw [Exec.run_bind_ok (x := Exec.push _) rfl]
  refine .bind (fun stop m' h => ?_) fun v m' hcall => ?_
  · exact ⟨_, _, hpart, stop, m', Launch.run_call_error_iff.2 h⟩
  · have hopen := (ih.call s (some pos) hf hvalues).ok (hpush.after hm) hcall
    show m'.frames.dropLast = a.machine.frames
    rw [hopen]
    show (m.frames ++ [_]).dropLast = a.machine.frames
    rw [List.dropLast_concat, hframes]

theorem Restores.ends_evaluate (hkeeps : Keeps good host depth) (ih : Restores good host depth)
    (e : Expr) (s : ScopeId) {m : Machine} (hm : m.All good) :
    Launch.Ends good host ⟨depth + 1, .evaluate e s, m⟩
      ((Evaluator.evaluate host (depth + 1) e s).run m) := by
  unfold Evaluator.evaluate
  rw [Exec.run_bind_ok (x := Exec.enter (some e.pos)) rfl]
  have hm₀ := (Exec.keeps_enter (some e.pos)).after hm
  cases e with
  | literal pos value => exact .steady .pure rfl
  | name pos id => exact .steady (Exec.steady_heap.bind fun _ => Exec.steady_ofStop _) rfl
  | function pos params body => exact .steady (Exec.steady_freshId.bind fun _ => .pure) rfl
  | group pos inner =>
    refine .last .group rfl (fun v m' h => (ih.evaluate inner s).ok hm₀ h) fun stop m' h => ?_
    exact Launch.run_evaluate_error_iff.2 h
  | negate pos operand =>
    refine .evaluate .operand fun v m₁ hoperand => ?_
    have hframes := (ih.evaluate operand s).ok hm₀ hoperand
    exact .steady .pure hframes
  | binary pos op left right =>
    refine .evaluate .left fun a m₁ hleft => ?_
    have hm₁ := ((hkeeps.evaluate left s).ok hm₀ hleft).1
    refine .evaluate (.right hleft) fun b m₂ hright => ?_
    have hframes := ((ih.evaluate right s).ok hm₁ hright).trans ((ih.evaluate left s).ok hm₀ hleft)
    exact .steady (steady_operate pos op a b) hframes
  | call pos callee args =>
    refine .evaluate .callee fun f m₁ hcallee => ?_
    have hframes := (ih.evaluate callee s).ok hm₀ hcallee
    obtain ⟨hm₁, hf⟩ := (hkeeps.evaluate callee s).ok hm₀ hcallee
    by_cases hcallable : f.isCallable = true
    · rw [if_pos hcallable]
      refine .bind (fun stop m' h => ?_) fun values m₂ hargs => ?_
      · obtain ⟨before, arg, after, values, m₂, hsplit, hbefore, harg⟩ := each_error_iff.1 h
        refine ⟨_, _, .argument hcallee hcallable hsplit hbefore, stop, m', ?_⟩
        exact Launch.run_evaluate_error_iff.2 harg
      · have hframes := ((ih.args hkeeps s args).ok hm₁ hargs).trans hframes
        obtain ⟨hm₂, hvalues⟩ := (keeps_each (fun e => hkeeps.evaluate e s) args).ok hm₁ hargs
        exact ih.ends_opened (.applied hcallee hcallable hargs) hf hvalues hm₂ hframes
    · rw [if_neg hcallable]
      exact .steady (Exec.steady_fail _ _) hframes

theorem Restores.ends_execute (hkeeps : Keeps good host depth) (ih : Restores good host depth)
    (stmt : Stmt) (s : ScopeId) {m : Machine} (hm : m.All good) :
    Launch.Ends good host ⟨depth + 1, .execute stmt s, m⟩
      ((Evaluator.execute host (depth + 1) stmt s).run m) := by
  unfold Evaluator.execute
  rw [Exec.run_bind_ok (x := Exec.enter stmt.pos) rfl]
  have hm₀ := (Exec.keeps_enter stmt.pos).after hm
  cases stmt with
  | expr e =>
    refine .evaluate .single fun v m₁ he => ?_
    have hframes := (ih.evaluate e s).ok hm₀ he
    exact .steady .pure hframes
  | assign pos target e =>
    refine .evaluate .assigned fun v m₁ he => ?_
    have hframes := (ih.evaluate e s).ok hm₀ he
    exact .steady ((Exec.steady_assign s target v).bind fun _ => .pure) hframes
  | ret pos e =>
    refine .evaluate .returned fun v m₁ he => ?_
    have hframes := (ih.evaluate e s).ok hm₀ he
    exact .steady .pure hframes
  | block pos body =>
    refine .bind (fun stop m' h => ?_) fun inner m₁ halloc => ?_
    · cases h
    have hm₁ := ((Exec.keeps_alloc (some s) false).ok hm₀ halloc).1
    have hframes := (Exec.steady_alloc (some s) false).ok halloc
    refine .row hframes (fun v? m' h => (ih.members hkeeps inner body).ok hm₁ h) ?_
    intro before stmt after m₂ hsplit hbefore stop m' h
    exact ⟨_, _, .member halloc hsplit hbefore, stop, m', h⟩
  | cond pos test yes no =>
    refine .evaluate .test fun v m₁ htest => ?_
    have hframes := (ih.evaluate test s).ok hm₀ htest
    have hm₁ := ((hkeeps.evaluate test s).ok hm₀ htest).1
    by_cases hv : v.isTruthy = true
    · rw [if_pos hv]
      exact .last (.yes htest hv) hframes (fun v m' h => (ih.execute yes s).ok hm₁ h) fun _ _ h => h
    · rw [if_neg hv]
      cases no with
      | none => exact .steady .pure hframes
      | some no =>
        refine .last (.no htest (Bool.eq_false_iff.2 hv)) hframes ?_ fun _ _ h => h
        exact fun v m' h => (ih.execute no s).ok hm₁ h

theorem Restores.ends_call (hhost : host.Orderly good) (hkeeps : Keeps good host depth)
    (ih : Restores good host depth) {f : Value} {args : List Value} (s : ScopeId) (site : Option Nat)
    (hf : good f) (hargs : ∀ v ∈ args, good v) {m : Machine} (hm : m.All good) :
    Launch.Ends good host ⟨depth + 1, .call f args s site, m⟩
      ((Evaluator.call host (depth + 1) f args s site).run m) := by
  cases f with
  | native id name discards code bound =>
    have horderly : (reentry host depth).Orderly good := fun s hf hargs => ih.call s none hf hargs
    rw [call_native, callNative, EStateM.run_bind]
    cases hrun : (host (reentry host depth) code ⟨s, args, bound⟩).run m with
    | ok v m' => exact (hhost.returns hkeeps.reentry horderly s hf hargs).ok hm hrun
    | error stop m' =>
      refine (hhost.stops hkeeps.reentry horderly hf hargs hm hrun).imp_right ?_
      rintro ⟨g, args', s', m₁, habandons⟩
      obtain ⟨stop', m₂, hcall, -⟩ := habandons.stops
      exact ⟨_, _, .reentered hrun habandons, stop', m₂, Launch.run_call_error_iff.2 hcall⟩
  | closure id params body home =>
    rw [Evaluator.call, callClosure]
    by_cases hcount : params.length < args.length
    · rw [if_pos hcount]
      exact .inl rfl
    · rw [if_neg hcount]
      refine .bind (fun stop m' h => ?_) fun inner m₁ halloc => ?_
      · cases h
      have hm₁ := ((Exec.keeps_alloc (some home) true).ok hm halloc).1
      have hframes := (Exec.steady_alloc (some home) true).ok halloc
      have hdefine : Exec.Keeps good (Exec.defineAll inner (params.zip args)) fun _ => True :=
        Exec.keeps_defineAll inner fun p hp => hargs p.2 (List.of_mem_zip hp).2
      rw [Exec.run_bind_ok (x := Exec.defineAll _ _) rfl]
      refine .bind (fun stop m' h => ?_) fun v? m₂ hbody => ?_
      · exact ⟨_, _, .body (Nat.not_lt.1 hcount) halloc, stop, m', h⟩
      · have hbody := (ih.execute body inner).ok (hdefine.after hm₁) hbody
        exact .steady .pure (hbody.trans hframes)
  | null | bool | int | float | text | list | absent => exact .inl rfl

theorem Restores.succ (hhost : host.Orderly good) (hkeeps : Keeps good host depth)
    (ih : Restores good host depth) : Restores good host (depth + 1) := by
  refine ⟨?_, ?_, ?_⟩
  · intro e s m hm v m' h
    have hends := ih.ends_evaluate hkeeps e s hm
    rwa [h] at hends
  · intro stmt s m hm v? m' h
    have hends := ih.ends_execute hkeeps stmt s hm
    rwa [h] at hends
  · intro f args s site hf hargs m hm v m' h
    have hends := ih.ends_call hhost hkeeps s site hf hargs hm
    rwa [h] at hends

theorem restores (hgood : Value.Trait good) (hhost : host.Orderly good) (depth : Nat) :
    Restores good host depth := by
  induction depth with
  | zero =>
    refine ⟨?_, ?_, ?_⟩
    · intro e s
      rw [evaluate]
      exact Exec.Steady.throw.restores
    · intro stmt s
      rw [execute]
      exact Exec.Steady.throw.restores
    · intro f args s site _ _
      rw [call]
      exact Exec.Steady.throw.restores
  | succ depth ih => exact ih.succ hhost (keeps hgood hhost.values depth)

theorem Restores.ends_program (hkeeps : Keeps good host depth) (h : Restores good host depth)
    (p : Program) (s : ScopeId) {m : Machine} (hm : m.All good) :
    Launch.Ends good host ⟨depth, .program p s, m⟩ ((runProgram host depth p s).run m) := by
  have hends : Launch.Ends good host ⟨depth, .program p s, m⟩ ((untilReturn
      (line (fun e => Evaluator.evaluate host depth e s) fun stmt => Evaluator.execute host depth stmt s)
      p.statements).run m) := by
    refine .row rfl (fun v? m' hrun => (h.lines hkeeps s p.statements).ok hm hrun) ?_
    intro before stmt after m₁ hsplit hbefore stop m' h
    exact ⟨_, _, .line hsplit hbefore, stop, m', line_error_iff.1 h⟩
  have hlike := runStatements_like (fun e => Evaluator.evaluate host depth e s)
    (fun stmt => Evaluator.execute host depth stmt s) .null p.statements m
  rw [runProgram]
  revert hends hlike
  cases (untilReturn _ p.statements).run m with
  | ok v? m' =>
    rintro hends ⟨v, hv⟩
    rw [hv]
    exact hends
  | error stop m' =>
    intro hends hv
    rw [hv]
    exact hends

end

end Evaluator

/-! ### Whole runs -/

section

variable {F G : List Frame} {a b : Launch} {m m' : Machine} {stop : Stop}

theorem Launch.Ends.some {x : Exec Value} (h : a.Ends good host (x.run m)) :
    a.Ends good host ((do return some (← x) : Exec (Option Value)).run m) := by
  rw [EStateM.run_bind]
  cases hx : x.run m with
  | ok v m' =>
    rw [hx] at h
    exact h
  | error stop m' =>
    rw [hx] at h
    exact h

/-- **A task leaves the calls in progress as they were, unless a part of it stops early.** -/
theorem Launch.ends (hgood : Value.Trait good) (hhost : host.Orderly good) (ha : a.Good good)
    (hscript : ∀ source, a.task ≠ .script source) : a.Ends good host (a.run host) := by
  obtain ⟨depth, task, m⟩ := a
  obtain ⟨htask, hm⟩ := ha
  have hkeeps := keeps hgood hhost.values
  have hrestores := restores hgood hhost
  cases task with
  | script source => exact absurd rfl (hscript source)
  | program p s => exact ((hrestores depth).ends_program (hkeeps depth) p s hm).some
  | evaluate e s =>
    cases depth with
    | zero => exact .inl rfl
    | succ depth => exact ((hrestores depth).ends_evaluate (hkeeps depth) e s hm).some
  | execute stmt s =>
    cases depth with
    | zero => exact .inl rfl
    | succ depth => exact (hrestores depth).ends_execute (hkeeps depth) stmt s hm
  | call f args s site =>
    cases depth with
    | zero => exact .inl rfl
    | succ depth =>
      exact ((hrestores depth).ends_call hhost (hkeeps depth) s site htask.1 htask.2 hm).some

/-- A part starts with the calls in progress of the task and those between the two. -/
theorem Part.start_frames (hgood : Value.Trait good) (hhost : host.Orderly good)
    (h : Part good host F a b) (ha : a.Good good) : b.machine.frames = a.machine.frames ++ F := by
  have hentered : ∀ pos, ((Exec.enter pos).after a.machine).All good :=
    fun pos => (Exec.keeps_enter pos).after ha.machine
  have hkeeps := keeps hgood hhost.values
  have hrestores := restores hgood hhost
  cases h with
  | group | operand | left | callee | single | assigned | returned | test =>
    exact (List.append_nil _).symm
  | right hleft =>
    have hframes := ((hrestores _).evaluate _ _).ok (hentered _) hleft
    exact hframes.trans (List.append_nil _).symm
  | argument hcallee _ _ hbefore =>
    have hframes := ((hrestores _).evaluate _ _).ok (hentered _) hcallee
    have hm₁ := (((hkeeps _).evaluate _ _).ok (hentered _) hcallee).1
    have hargs := ((hrestores _).args (hkeeps _) _ _).ok hm₁ hbefore
    exact (hargs.trans hframes).trans (List.append_nil _).symm
  | applied hcallee _ hargs =>
    have hframes := ((hrestores _).evaluate _ _).ok (hentered _) hcallee
    have hm₁ := (((hkeeps _).evaluate _ _).ok (hentered _) hcallee).1
    have hargs := ((hrestores _).args (hkeeps _) _ _).ok hm₁ hargs
    exact congrArg (· ++ _) (hargs.trans hframes)
  | member halloc _ hbefore =>
    have hframes := (Exec.steady_alloc _ _).ok halloc
    have hm₁ := ((Exec.keeps_alloc _ _).ok (hentered _) halloc).1
    have hbefore := ((hrestores _).members (hkeeps _) _ _).ok hm₁ hbefore
    exact (hbefore.trans hframes).trans (List.append_nil _).symm
  | yes htest _ | no htest _ =>
    have hframes := ((hrestores _).evaluate _ _).ok (hentered _) htest
    exact hframes.trans (List.append_nil _).symm
  | body _ halloc => exact ((Exec.steady_alloc _ _).ok halloc).trans (List.append_nil _).symm
  | reentered _ habandons => exact habandons.starts.trans (List.append_nil _).symm
  | line _ hbefore =>
    have hbefore := ((hrestores _).lines (hkeeps _) _ _).ok ha.machine hbefore
    exact hbefore.trans (List.append_nil _).symm

/-- No part is a script. -/
theorem Part.not_script (h : Part good host F a b) (source : String) : b.task ≠ .script source := by
  cases h with
  | @line _ _ _ _ stmt => cases stmt <;> simp [Stmt.task]
  | _ => simp

theorem Reaches.not_script (h : Reaches good host F a b) (ha : ∀ source, a.task ≠ .script source) :
    ∀ source, b.task ≠ .script source := by
  induction h with
  | refl => exact ha
  | step hpart _ ih => exact ih hpart.not_script

/-- A task stops early if one inside it does, with the same calls in progress. -/
theorem Reaches.error (hgood : Value.Trait good) (hhost : host.Orderly good)
    (h : Reaches good host F a b) (ha : a.Good good) (hb : b.run host = .error stop m') :
    b.machine.frames = a.machine.frames ++ F ∧
      ∃ stop' m'', a.run host = .error stop' m'' ∧ m''.frames = m'.frames := by
  induction h with
  | refl => exact ⟨(List.append_nil _).symm, stop, m', hb, rfl⟩
  | step hpart _ ih =>
    obtain ⟨hframes, stop₁, m₁, hrun, hm₁⟩ := ih (hpart.start_good hgood hhost.values ha) hb
    obtain ⟨stop₂, m₂, hrun, hm₂⟩ := hpart.error hrun
    refine ⟨?_, stop₂, m₂, hrun, hm₂.trans hm₁⟩
    rw [hframes, hpart.start_frames hgood hhost ha, List.append_assoc]

/-- The task stops early, and no part of it does. -/
def Launch.StopsItself (good : Value → Prop) (host : Host) (a : Launch) : Prop :=
  a.Stops host ∧ ∀ F b, Part good host F a b → ¬ b.Stops host

/-- The calls in progress when the task stops early, outermost first. -/
def Launch.InProgress (good : Value → Prop) (host : Host) (a : Launch) (F : List Frame) : Prop :=
  ∃ b, Reaches good host F a b ∧ b.StopsItself good host

theorem Launch.InProgress.frames (hgood : Value.Trait good) (hhost : host.Orderly good)
    (ha : a.Good good) (hscript : ∀ source, a.task ≠ .script source)
    (h : a.InProgress good host F) :
    ∃ stop m', a.run host = .error stop m' ∧ m'.frames = a.machine.frames ++ F := by
  obtain ⟨b, hreaches, ⟨stop, m', hb⟩, hparts⟩ := h
  obtain ⟨hframes, stop', m'', ha', hm''⟩ := hreaches.error hgood hhost ha hb
  have hends := Launch.ends hgood hhost (hreaches.start_good hgood hhost.values ha)
    (hreaches.not_script hscript)
  rw [hb] at hends
  rcases hends with hsame | ⟨G, c, hpart, hc⟩
  · exact ⟨stop', m'', ha', by rw [hm'', hsame, hframes]⟩
  · exact absurd hc (hparts G c hpart)

/-- Parts are nested less deeply; a program counts for more than its statements. -/
def Launch.weight (a : Launch) : Nat :=
  match a.task with
  | .program _ _ => 2 * a.depth + 1
  | _ => 2 * a.depth

theorem Part.weight_lt (h : Part good host F a b) : b.weight < a.weight := by
  cases h with
  | @line d _ _ _ stmt => cases stmt <;> exact Nat.lt_succ_self (2 * d)
  | _ => simp only [Launch.weight]; omega

/-- Where a task stops early, something inside it does so itself. -/
theorem Launch.exists_inProgress (good : Value → Prop) {a : Launch} (h : a.Stops host) :
    ∃ F, a.InProgress good host F := by
  by_cases hparts : ∃ F b, Part good host F a b ∧ b.Stops host
  · obtain ⟨F, b, hpart, hb⟩ := hparts
    obtain ⟨G, c, hreaches, hc⟩ := Launch.exists_inProgress good hb
    exact ⟨F ++ G, c, .step hpart hreaches, hc⟩
  · exact ⟨[], a, .refl, h, fun F b hpart hb => hparts ⟨F, b, hpart, hb⟩⟩
termination_by a.weight
decreasing_by exact hpart.weight_lt

/-- **What a task does to the calls in progress.**  If it comes to an end, they are as they were.  If it
stops early, exactly the calls in progress inside it have been added. -/
theorem Launch.calls (hgood : Value.Trait good) (hhost : host.Orderly good) (ha : a.Good good)
    (hscript : ∀ source, a.task ≠ .script source) :
    match a.run host with
    | .ok _ m' => m'.frames = a.machine.frames ∧ ∀ F, ¬ a.InProgress good host F
    | .error _ m' =>
      ∃ F, m'.frames = a.machine.frames ++ F ∧ ∀ G, a.InProgress good host G ↔ G = F := by
  have hends := Launch.ends hgood hhost ha hscript
  cases hrun : a.run host with
  | ok v? m' =>
    rw [hrun] at hends
    refine ⟨hends, fun F hF => ?_⟩
    obtain ⟨stop, m'', herror, -⟩ := hF.frames hgood hhost ha hscript
    exact absurd (hrun.symm.trans herror) (by simp)
  | error stop m' =>
    have hframes : ∀ G, a.InProgress good host G → m'.frames = a.machine.frames ++ G := by
      intro G hG
      obtain ⟨stop', m'', herror, hG⟩ := hG.frames hgood hhost ha hscript
      rw [(EStateM.Result.error.inj (hrun.symm.trans herror)).2, hG]
    obtain ⟨F, hF⟩ := Launch.exists_inProgress good ⟨stop, m', hrun⟩
    refine ⟨F, hframes F hF, fun G => ⟨fun hG => ?_, fun hG => hG ▸ hF⟩⟩
    exact List.append_cancel_left ((hframes G hG).symm.trans (hframes F hF))

end

/-! ### The toolbox -/

/-- A native that neither catches an early end nor runs a script. -/
def Native.LeavesCalls (code : Native) : Prop := code ≠ .attempt ∧ code ≠ .script

namespace Toolbox

theorem steady_updateHeap (f : Heap → Except Fault Heap) : Exec.Steady (updateHeap f) := by
  refine Exec.steady_heap.bind fun h => ?_
  refine (Exec.steady_ofFault _).bind fun h' => ?_
  exact (Exec.steady_setHeap h').bind fun _ => .pure

theorem steady_addAll (ns : List Numeric) : Exec.Steady (addAll ns) := by
  induction ns with
  | nil => exact Exec.steady_get.bind fun _ => .pure
  | cons n ns ih =>
    refine Exec.steady_get.bind fun m => ?_
    refine (Exec.steady_ofFault _).bind fun total => ?_
    exact Exec.Steady.bind (.modifyGet fun _ => rfl) fun _ => ih

theorem steady_onScopes (code : Native) (r : Request) : Exec.Steady (onScopes code r) := by
  refine Exec.steady_heap.bind fun h => ?_
  cases code with
  | define => exact steady_updateHeap _
  | assign => exact steady_updateHeap _
  | fetch => exact Exec.steady_ofFault _
  | lookup => exact Exec.steady_ofStop _
  | _ => exact .pure

theorem steady_onValues (code : Native) (r : Request) : Exec.Steady (onValues code r) := by
  cases code with
  | print => exact (Exec.steady_emit _ _).bind fun _ => .pure
  | printNames => exact Exec.steady_heap.bind fun _ => (Exec.steady_emit _ _).bind fun _ => .pure
  | emit => exact (Exec.steady_emit _ _).bind fun _ => .pure
  | add => exact steady_addAll _
  | _ => exact .pure

/-- Such a native leaves the calls alone, or passes a call on. -/
theorem onCalls_cases (reentry : Reentry) {code : Native} (hcode : code.LeavesCalls) (r : Request) :
    Exec.Steady (onCalls reentry code r) ∨
      onCalls reentry code r = reentry.call (r.arg 0) (r.args.drop 1) r.scope := by
  cases code with
  | apply => exact .inr rfl
  | attempt => exact absurd rfl hcode.1
  | script => exact absurd rfl hcode.2
  | fail => exact .inl (Exec.steady_fail _ _)
  | failType => exact .inl (Exec.steady_fail _ _)
  | _ => exact .inl .pure

end Toolbox

/-- Such a native leaves the calls alone, or passes a call on. -/
theorem toolbox_steady_or_call (reentry : Reentry) {code : Native} (hcode : code.LeavesCalls)
    (r : Request) : Exec.Steady (toolbox reentry code r) ∨
      toolbox reentry code r = reentry.call (r.arg 0) (r.args.drop 1) r.scope := by
  rcases toolbox_cases reentry code r with heq | heq | heq <;> rw [heq]
  · exact .inl (Toolbox.steady_onScopes code r)
  · exact Toolbox.onCalls_cases reentry hcode r
  · exact .inl (Toolbox.steady_onValues code r)

/-- **Natives of the toolbox leave the calls in progress as they are or pass a call on**, unless they
catch an early end or run a script. -/
theorem toolbox_orderly (hgood : Value.Trait good) (hvalues : toolbox.Keeps good)
    (hnatives : ∀ id name discards code bound, good (.native id name discards code bound) →
      code.LeavesCalls) : toolbox.Orderly good where
  values := hvalues
  returns {reentry} _ hreentry {id name discards code bound args} s hf hargs := by
    have hdrop : ∀ v ∈ args.drop 1, good v := fun v hv => hargs v (List.mem_of_mem_drop hv)
    rcases toolbox_steady_or_call reentry (hnatives _ _ _ _ _ hf) ⟨s, args, bound⟩ with hsteady | heq
    · exact hsteady.restores
    · rw [heq]
      exact hreentry s (Toolbox.arg_good hgood hargs 0) hdrop
  stops {reentry} _ hreentry {id name discards code bound args s} hf hargs {m m' stop} hm hrun := by
    have hdrop : ∀ v ∈ args.drop 1, good v := fun v hv => hargs v (List.mem_of_mem_drop hv)
    rcases toolbox_steady_or_call reentry (hnatives _ _ _ _ _ hf) ⟨s, args, bound⟩ with hsteady | heq
    · exact .inl (hsteady.error hrun)
    · rw [heq] at hrun
      exact .inr ⟨_, _, _, m, Toolbox.arg_good hgood hargs 0, hdrop, hm, rfl, stop, m', hrun, rfl⟩

end Klex
