import Klex.Proofs.Evaluator.Conduct
import Klex.Proofs.Session.Start

/-!
# The course of a session

* **`Exec.after`** — the machine that a computation leaves behind, also where it stops early.
* **`Task`** — what can be asked of a machine: an expression, a statement, a call, a program, a
  script.
* **`Task.obeys`** — **a task goes by steps and gives new names to one of the scopes that it finds
  at most**, its home (`Task.home?`), unless natives bind.
* **`Session.continued`** — the machine after any number of scripts; **`continued_steps`** — it is
  reached by steps, and new names appear in the scope of the session alone.
-/

namespace Klex

open Machine

/-! ### Tasks -/

/-- The machine that a computation leaves behind, whether it ends or stops early. -/
def Exec.after {α : Type} (x : Exec α) (m : Machine) : Machine :=
  match x.run m with
  | .ok _ m' | .error _ m' => m'

/-- The value that a computation comes to, if it comes to one. -/
def Exec.value? (x : Exec (Option Value)) (m : Machine) : Option Value :=
  match x.run m with
  | .ok v? _ => v?
  | .error _ _ => none

/-- Something to run on a machine. -/
inductive Task where
  | evaluate (e : Expr) (s : Nat)
  | execute (stmt : Stmt) (s : Nat)
  | call (f : Value) (args : List Value) (s : Nat) (site : Option Nat)
  | program (p : Program) (s : Nat)
  | script (source : String)

namespace Task

/-- Runs a task to a given depth. -/
def run (host : Host) (depth : Nat) : Task → Exec (Option Value)
  | evaluate e s => return some (← Evaluator.evaluate host depth e s)
  | execute stmt s => Evaluator.execute host depth stmt s
  | call f args s site => return some (← Evaluator.call host depth f args s site)
  | program p s => return some (← Evaluator.runProgram host depth p s)
  | script source => return (← Evaluator.runScript host depth source).outcome.toOption

/-- The task is about scopes that there are, and about values and trees that may turn up. -/
def Fits (P : Policy) (m : Machine) : Task → Prop
  | evaluate e s => e.Within P ∧ s < m.heap.size
  | execute stmt s => stmt.Within P ∧ s < m.heap.size
  | call f args s _ =>
    f.Fits P m.heap.size ∧ (∀ v ∈ args, v.Fits P m.heap.size) ∧ s < m.heap.size
  | program p s => p.Within P ∧ s < m.heap.size
  | script _ => globalScope < m.heap.size

/-- The scope that a task itself may give new names to. -/
def home? : Task → Option Nat
  | evaluate _ _ | call _ _ _ _ => none
  | execute stmt s => if stmt.opensScope then none else some s
  | program _ s => some s
  | script _ => some globalScope

end Task

section

variable {P : Policy} {added : Nat → Prop} {m : Machine} {α : Type} {x : Exec α}

theorem Exec.Obeys.steps {Q : α → Machine → Prop} (h : Exec.Obeys P added x Q m) (hm : m.Fit P) :
    Steps P added m (x.after m) := by
  have hends := h hm
  rw [Exec.after]
  cases hrun : x.run m <;> rw [hrun] at hends <;> exact hends.1

theorem Exec.Obeys.fits {x : Exec (Option Value)}
    (h : Exec.Obeys P added x (Value.StandsIfAny P) m) (hm : m.Fit P) :
    Value.StandsIfAny P (x.value? m) (x.after m) := by
  have hends := h hm
  rw [Exec.after, Exec.value?]
  cases hrun : x.run m with
  | ok v? m' =>
    rw [hrun] at hends
    exact hends.2
  | error stop m' => exact Value.standsIfAny_none P m'

end

/-- **A task goes by steps, and gives new names to its home alone.** -/
theorem Task.obeys {P : Policy} {least : Nat} {host : Host} {m : Machine} {task : Task}
    (depth : Nat) (hP : P.Sound) (hhost : host.Obeys P least) (hm : least ≤ m.heap.size)
    (htask : task.Fits P m) :
    Exec.Obeys P (fun t => P.Fresh m.heap.size t ∨ task.home? = some t) (task.run host depth)
      (Value.StandsIfAny P) m := by
  have h := Evaluator.conduct hP hhost depth
  -- tasks that come to a value come to no more than that
  have hvalue : ∀ {x : Exec Value} {added : Nat → Prop},
      Exec.Obeys P added x (Value.Stands P) m →
      (∀ t, added t → P.Fresh m.heap.size t ∨ task.home? = some t) →
      Exec.Obeys P (fun t => P.Fresh m.heap.size t ∨ task.home? = some t) (do return some (← x))
        (Value.StandsIfAny P) m := by
    intro x added hx hadded
    refine (hx.widen hadded).bind fun v m₁ _ hv => .pure ?_
    exact fun w hw => Option.some.inj hw ▸ hv
  cases task with
  | evaluate e s => exact hvalue (h.evaluate hm htask.1 htask.2) fun t ht => .inl ht
  | call f args s site =>
    exact hvalue (h.call hm htask.1 htask.2.1 htask.2.2) fun t ht => .inl ht
  | program p s =>
    refine hvalue (h.program hP hm htask.1 htask.2) fun t ht => ht.imp_right fun hts => ?_
    rw [hts]
    rfl
  | execute stmt s =>
    refine (h.execute hm htask.1 htask.2).widen fun t ht => ht.imp_right fun ht => ?_
    rw [Task.home?, ht.1, ht.2]
    rfl
  | script source =>
    have hhome : ∀ t, t = globalScope → (Task.script source).home? = some t := fun t ht => ht ▸ rfl
    refine ((h.script source hm htask).widen fun t ht => ht.imp_right (hhome t)).bind ?_
    intro report m₁ _ hreport
    refine .pure fun v hv => hreport v ?_
    cases houtcome : report.outcome with
    | error p => simp [houtcome, Except.toOption] at hv
    | ok w => simpa [houtcome, Except.toOption] using hv

/-! ### Scripts one after the other -/

namespace Session

/-- The machine after scripts, each run to a depth of its own.  A script that stops early leaves its
machine to the next. -/
def continued (host : Host) : Machine → List (Nat × String) → Machine
  | m, [] => m
  | m, (depth, source) :: rest =>
    continued host ((Evaluator.runScript host depth source).after m) rest

theorem continued_steps {P : Policy} {least : Nat} {host : Host} {m : Machine} (hP : P.Sound)
    (hhost : host.Obeys P least) (hm : m.Fit P) (hleast : least ≤ m.heap.size)
    (hglobal : globalScope < m.heap.size) (scripts : List (Nat × String)) :
    Steps P (fun t => P.Fresh m.heap.size t ∨ t = globalScope) m (continued host m scripts) := by
  induction scripts generalizing m with
  | nil => exact .refl
  | cons script scripts ih =>
    have hsteps := ((Evaluator.conduct hP hhost script.1).script script.2 hleast hglobal).steps hm
    have hsize := hsteps.grows.size
    have hglobal := Nat.lt_of_lt_of_le hglobal hsize
    have hrest := ih (hm.steps hsteps) (Nat.le_trans hleast hsize) hglobal
    exact hsteps.trans (hrest.widen fun t ht => ht.imp_left (.mono hsize))

end Session

end Klex
