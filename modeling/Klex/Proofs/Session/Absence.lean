import Klex.Proofs.Evaluator.Parts

/-!
# The mark of absence is no value of a script

A statement that does not return and a native without a result give the mark of absence.  Both end in the
evaluator: a statement goes on to the next, and a call comes to null.

* **`Value.IsPresent`** — anything but the mark of absence.
* **`Launch.Returns`** — a `return` is carried out: it starts inside the statement **with no call in
  progress between the two**, and its value is known.
* **`execute_returns_iff`** — a statement gives a value exactly when it carries out a `return`.
* **`absence_contained`** — **wherever no name is bound to the mark of absence and none is passed, it stays
  so**, and no expression, call, program or script comes to it.
-/

namespace Klex

open Evaluator

/-- Anything but the mark of absence. -/
def Value.IsPresent (v : Value) : Prop := v ≠ .absent

theorem Value.isPresent_trait : Value.Trait Value.IsPresent where
  literal l := by cases l <;> simp [Value.IsPresent, Value.ofLiteral]
  closure _ _ _ _ := by simp [Value.IsPresent]

theorem Value.orNull_isPresent (v : Value) : v.orNull.IsPresent := by
  cases v <;> simp [Value.IsPresent, Value.orNull, Value.present?]

theorem Value.present?_eq_some {v w : Value} : v.present? = some w ↔ v.IsPresent ∧ v = w := by
  cases v <;> simp [Value.IsPresent, Value.present?]

/-- Natives of the toolbox bind what they are passed, whatever they give. -/
theorem toolbox_keeps_isPresent : toolbox.Keeps Value.IsPresent :=
  toolbox_keeps Value.isPresent_trait fun _ _ _ _ _ _ v _ => v.orNull_isPresent

/-! ### Returns -/

/-- A `return` that starts inside the task with no call in between comes to the value. -/
def Launch.Returns (good : Value → Prop) (host : Host) (a : Launch) (v : Value) (m' : Machine) :
    Prop :=
  ∃ (depth pos : Nat) (e : Expr) (s : ScopeId) (m : Machine),
    Reaches good host [] a ⟨depth + 1, .execute (.ret pos e) s, m⟩ ∧
      (evaluate host depth e s).run ((Exec.enter (some pos)).after m) = .ok v m'

section

variable {good : Value → Prop} {host : Host} {a b : Launch} {v : Value} {m m' : Machine} {depth : Nat}

theorem Launch.Returns.step (hpart : Part good host [] a b) (h : b.Returns good host v m') :
    a.Returns good host v m' := by
  obtain ⟨depth, pos, e, s, m, hreaches, hvalue⟩ := h
  exact ⟨depth, pos, e, s, m, .step hpart hreaches, hvalue⟩

/-- A statement that gives a value carries out a `return`. -/
theorem returns_of_execute (good : Value → Prop) {stmt : Stmt} {s : ScopeId}
    (h : (execute host depth stmt s).run m = .ok (some v) m') :
    Launch.Returns good host ⟨depth, .execute stmt s, m⟩ v m' := by
  induction depth generalizing stmt s m with
  | zero =>
    rw [execute] at h
    cases h
  | succ depth ih =>
    unfold execute at h
    obtain ⟨_, _, hentered, h⟩ := Exec.bind_eq_ok h
    obtain ⟨-, rfl⟩ := EStateM.Result.ok.inj hentered
    cases stmt with
    | expr e =>
      obtain ⟨_, _, _, h⟩ := Exec.bind_eq_ok h
      exact absurd (EStateM.Result.ok.inj h).1 (by simp)
    | assign pos target e =>
      obtain ⟨_, _, _, h⟩ := Exec.bind_eq_ok h
      obtain ⟨_, _, _, h⟩ := Exec.bind_eq_ok h
      exact absurd (EStateM.Result.ok.inj h).1 (by simp)
    | ret pos e =>
      obtain ⟨w, m₁, hvalue, h⟩ := Exec.bind_eq_ok h
      obtain ⟨hv, rfl⟩ := EStateM.Result.ok.inj h
      obtain ⟨-, rfl⟩ := Value.present?_eq_some.1 hv
      exact ⟨depth, pos, e, s, m, .refl, hvalue⟩
    | block pos body =>
      obtain ⟨inner, m₁, halloc, h⟩ := Exec.bind_eq_ok h
      obtain ⟨before, stmt, after, m₂, hsplit, hbefore, h⟩ := (untilReturn_eq_iff (by simp)).1 h
      exact (ih h).step (.member halloc hsplit hbefore)
    | cond pos test yes no =>
      obtain ⟨w, m₁, htest, h⟩ := Exec.bind_eq_ok h
      by_cases hw : w.isTruthy = true
      · rw [if_pos hw] at h
        exact (ih h).step (.yes htest hw)
      · rw [if_neg hw] at h
        cases no with
        | none => exact absurd (EStateM.Result.ok.inj h).1 (by simp)
        | some no => exact (ih h).step (.no htest (Bool.eq_false_iff.2 hw))

/-- Without a call there are only expressions inside an expression. -/
theorem Reaches.evaluate {F : List Frame} (h : Reaches good host F a b) (hF : F = []) {e : Expr}
    {s : ScopeId} (ha : a.task = .evaluate e s) : ∃ e' s', b.task = .evaluate e' s' := by
  induction h generalizing e s with
  | refl => exact ⟨e, s, ha⟩
  | step hpart _ ih =>
    obtain ⟨rfl, rfl⟩ := List.append_eq_nil_iff.1 hF
    cases hpart <;> first | exact ih rfl rfl | exact absurd ha (by simp)

/-- What a statement inside a statement gives is what the statement gives. -/
theorem Part.execute_returns {stmt stmt' : Stmt} {s s' : ScopeId} {d : Nat} {m₁ : Machine}
    (h : Part good host [] ⟨depth, .execute stmt s, m⟩ ⟨d, .execute stmt' s', m₁⟩)
    (hreturn : (execute host d stmt' s').run m₁ = .ok (some v) m') :
    (execute host depth stmt s).run m = .ok (some v) m' := by
  cases h with
  | member halloc hsplit hbefore =>
    unfold execute
    refine (Exec.run_bind_ok rfl).trans ((Exec.run_bind_ok halloc).trans ?_)
    exact (untilReturn_eq_iff (by simp)).2 ⟨_, _, _, _, hsplit, hbefore, hreturn⟩
  | yes htest htruthy =>
    unfold execute
    refine (Exec.run_bind_ok rfl).trans ((Exec.run_bind_ok htest).trans ?_)
    rw [if_pos htruthy]
    exact hreturn
  | no htest htruthy =>
    unfold execute
    refine (Exec.run_bind_ok rfl).trans ((Exec.run_bind_ok htest).trans ?_)
    rw [if_neg (by simp [htruthy])]
    exact hreturn

theorem Reaches.execute_returns {F : List Frame} (h : Reaches good host F a b) (hF : F = [])
    {stmt stmt' : Stmt} {s s' : ScopeId} (ha : a.task = .execute stmt s)
    (hb : b.task = .execute stmt' s')
    (hreturn : (execute host b.depth stmt' s').run b.machine = .ok (some v) m') :
    (execute host a.depth stmt s).run a.machine = .ok (some v) m' := by
  induction h generalizing stmt s with
  | refl =>
    obtain ⟨rfl, rfl⟩ := Task.execute.inj (ha.symm.trans hb)
    exact hreturn
  | @step _ _ a b c hpart hrest ih =>
    obtain ⟨rfl, rfl⟩ := List.append_eq_nil_iff.1 hF
    obtain ⟨d, task, m₁⟩ := a
    obtain ⟨d', task', m₂⟩ := b
    subst ha
    cases task' with
    | execute stmt₁ s₁ => exact hpart.execute_returns (ih rfl rfl hb hreturn)
    | evaluate e s₁ =>
      -- from there no statement is reached
      obtain ⟨e', s₂, hc⟩ := hrest.evaluate rfl rfl
      exact absurd (hb.symm.trans hc) (by simp)
    | call f args s₁ site => cases hpart
    | program p s₁ => cases hpart
    | script source => cases hpart

/-- **A statement gives a value exactly when it carries out a `return`, and gives the value of that.** -/
theorem execute_returns_iff (hhost : host.Keeps Value.IsPresent) (hm : m.All Value.IsPresent)
    {stmt : Stmt} {s : ScopeId} :
    (execute host depth stmt s).run m = .ok (some v) m'
      ↔ Launch.Returns Value.IsPresent host ⟨depth, .execute stmt s, m⟩ v m' := by
  refine ⟨returns_of_execute Value.IsPresent, ?_⟩
  rintro ⟨d, pos, e, s', m₁, hreaches, hvalue⟩
  have hm₁ := (hreaches.start_good Value.isPresent_trait hhost ⟨trivial, hm⟩).machine
  have hkeeps := (keeps Value.isPresent_trait hhost d).evaluate e s'
  have hv := (hkeeps.ok ((Exec.keeps_enter _).after hm₁) hvalue).2
  refine hreaches.execute_returns rfl rfl rfl ?_
  unfold execute
  refine (Exec.run_bind_ok rfl).trans ((Exec.run_bind_ok hvalue).trans ?_)
  rw [Value.present?_eq_some.2 ⟨hv, rfl⟩]
  rfl

end

/-! ### Whole runs -/

theorem Task.keeps {good : Value → Prop} {host : Host} (hgood : Value.Trait good)
    (hhost : host.Keeps good) (depth : Nat) {task : Task} (htask : task.Good good) :
    Exec.Keeps good (task.run host depth) (Value.AnyGood good) := by
  have h := Evaluator.keeps hgood hhost depth
  have hsome : ∀ {x : Exec Value}, Exec.Keeps good x good →
      Exec.Keeps good (do return some (← x)) (Value.AnyGood good) := by
    intro x hx
    exact hx.bind fun v hv => .pure fun w hw => Option.some.inj hw ▸ hv
  cases task with
  | evaluate e s => exact hsome (h.evaluate e s)
  | execute stmt s => exact h.execute stmt s
  | call f args s site => exact hsome (h.call s site htask.1 htask.2)
  | program p s => exact hsome (h.program hgood p s)
  | script source =>
    refine (h.script source).bind fun report hreport => .pure fun v hv => hreport v ?_
    cases houtcome : report.outcome with
    | error p => simp [houtcome, Except.toOption] at hv
    | ok w => simpa [houtcome, Except.toOption] using hv

namespace Session

/-- **The mark of absence never becomes a value of a script.**  Let natives bind nothing but what they
are passed, whether or not they give a value, and let no name be bound to the mark of absence and none be
an argument of a call.  Then the same is true after an expression, a statement, a call, a program or a
script, also where it stops early, and none of them comes to the mark of absence.  A statement gives a
value exactly when it carries out a `return` of its own, outside of any call that it makes, and then it
gives the value of that. -/
theorem absence_contained (host : Host) (hhost : host.Keeps Value.IsPresent) (m : Machine)
    (hm : m.All Value.IsPresent) (depth : Nat) :
    (∀ task : Task, task.Good Value.IsPresent →
      ((task.run host depth).after m).All Value.IsPresent ∧
      ∀ v, (task.run host depth).value? m = some v → v.IsPresent) ∧
    ∀ (stmt : Stmt) (s : ScopeId) (v : Value) (m' : Machine),
      (execute host depth stmt s).run m = .ok (some v) m'
        ↔ Launch.Returns Value.IsPresent host ⟨depth, .execute stmt s, m⟩ v m' := by
  refine ⟨fun task htask => ?_, fun _ _ _ _ => execute_returns_iff hhost hm⟩
  have hkeeps := Task.keeps Value.isPresent_trait hhost depth htask
  refine ⟨hkeeps.after hm, fun v hv => ?_⟩
  rw [Exec.value?] at hv
  cases hrun : (task.run host depth).run m with
  | error stop m' =>
    rw [hrun] at hv
    exact absurd hv (by simp)
  | ok v? m' =>
    rw [hrun] at hv
    exact (hkeeps.ok hm hrun).2 v hv

/-- A new session with a native that gives no value. -/
def withMute : Machine := start true [] [("mute", .native "mute" false .nothing)]

/-- The native is called, asked, and returned from. -/
def askMute : Stmt :=
  let ask : Expr := .call 2 (.name 2 "mute") []
  .block (some 2) [.expr ask, .cond 9 (.negate 12 ask) (.ret 20 ask) none]

theorem withMute_all : withMute.All Value.IsPresent := by
  have hsize : withMute.heap.size = 2 := rfl
  have hroot : withMute.heap.bindings 0
      = [("print", .native 0 "print" true .print []),
        ("printAvailableDebug", .native 1 "printAvailableDebug" true .printNames []),
        ("mute", .native 2 "mute" false .nothing [])] := rfl
  have hglobal : withMute.heap.bindings 1 = [] := rfl
  constructor
  · intro s p hp
    have hlt : s < 2 := hsize ▸ Heap.lt_of_mem_bindings hp
    rcases Nat.le_one_iff_eq_zero_or_eq_one.1 (Nat.le_of_lt_succ hlt) with rfl | rfl
    · rw [hroot] at hp
      simp only [List.mem_cons, List.not_mem_nil, or_false] at hp
      rcases hp with rfl | rfl | rfl <;> simp [Value.IsPresent]
    · rw [hglobal] at hp
      exact absurd hp (by simp)
  · intro f hf
    exact absurd hf (by simp [show withMute.frames ++ withMute.trace = [] from rfl])

theorem absence_contained_mute :
    withMute.All Value.IsPresent ∧ ∃ m', Launch.Returns Value.IsPresent toolbox
      ⟨9, .execute askMute globalScope, withMute⟩ .null m' := by
  have hreturns := (absence_contained toolbox toolbox_keeps_isPresent withMute withMute_all 9).2
  obtain ⟨m', hrun⟩ : ∃ m', (execute toolbox 9 askMute globalScope).run withMute
      = .ok (some .null) m' := ⟨_, rfl⟩
  exact ⟨withMute_all, m', (hreturns _ _ _ _).1 hrun⟩

end Session

end Klex
