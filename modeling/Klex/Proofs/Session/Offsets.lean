import Klex.Proofs.Evaluator.Mirror
import Klex.Proofs.Grammar.Respacing
import Klex.Proofs.Session.Scopes

/-!
# Offsets do not influence runs

* **`Relocation.erase`** — the change that takes the offsets away.
* **`Value.unplaced`**, **`Machine.unplaced`**, **`Stop.unplaced`** — values, machines and early ends without
  the offsets in the bodies of functions, of calls and of failures.
* **`offsets_irrelevant`** — **programs that differ in offsets alone, run on machines that differ in offsets
  alone, come to what differs in offsets alone.**

Functions stay in scopes with the offsets of the text that made them, and are compared, shown and called
later.  So it is not enough to look at the program: the machines are compared along both runs.
-/

namespace Klex

open Machine

/-- The change that takes the offsets away. -/
def Relocation.erase : Relocation where
  offset _ := 0
  place _ := none
  expr := Expr.unplaced
  stmt := Stmt.unplaced
  literal _ _ := rfl
  name _ _ := rfl
  group _ _ := rfl
  negate _ _ := rfl
  binary _ _ _ _ := rfl
  call _ _ args := by rw [Expr.unplaced, Expr.unplacedAll_eq_map]
  function _ _ _ := rfl
  single _ := rfl
  block _ body := by rw [Stmt.unplaced, Stmt.unplacedAll_eq_map]
  ret _ _ := rfl
  assign _ _ _ := rfl
  cond _ _ _ no := by rw [Stmt.unplaced, Stmt.unplacedElse_eq_map]

/-- The value without offsets. -/
def Value.unplaced (v : Value) : Value := v.relocate .erase

/-- The early end without the offset that it points to. -/
def Stop.unplaced (s : Stop) : Stop := s.relocate .erase

/-- The machine without offsets, neither in functions nor of calls nor of the node entered last. -/
def Machine.unplaced (m : Machine) : Machine :=
  { m with
    heap := ⟨m.heap.scopes.map (Scope.relocate .erase)⟩
    frames := m.frames.map (Frame.relocate .erase)
    current := none
    trace := m.trace.map (Frame.relocate .erase) }

/-- What a run comes to, without offsets. -/
def unplacedResult :
    EStateM.Result Stop Machine Value → EStateM.Result Stop Machine Value
  | .ok v m => .ok v.unplaced m.unplaced
  | .error stop m => .error stop.unplaced m.unplaced

/-- What a run comes to, whatever node it entered last. -/
def restingResult :
    EStateM.Result Stop Machine Value → EStateM.Result Stop Machine Value
  | .ok v m => .ok v { m with current := none }
  | .error stop m => .error stop { m with current := none }

section

variable {m n : Machine}

/-- A machine without offsets shows the machine. -/
theorem Machine.mirrors_unplaced (hm : m.Fit (.quiet Native.IsBuiltin)) :
    m.Mirrors .erase (fun _ => True) m.unplaced := by
  refine ⟨⟨?_, ?_, fun _ _ => trivial, fun _ _ _ _ => trivial, ?_⟩, rfl, rfl, rfl, rfl, rfl⟩
  · exact Array.size_map
  · exact fun t _ => Array.getElem?_map
  · exact fun t _ p hp => (hm.values t p hp).inside (fun _ h => h) fun _ _ => trivial

/-- What shows a machine without offsets is that machine without offsets. -/
theorem Machine.Mirrors.unplaced_eq (h : m.Mirrors .erase (fun _ => True) n) :
    m.unplaced = { n with current := none } := by
  have hscopes : n.heap.scopes = m.heap.scopes.map (Scope.relocate .erase) := by
    apply Array.ext_getElem?
    intro t
    rw [h.heap.scopes t trivial, Array.getElem?_map]
  rw [Machine.unplaced, ← h.frames, ← h.trace, ← hscopes, ← h.effects, ← h.nextId, ← h.total]

/-- A run comes to what the program without offsets comes to on the machine without offsets. -/
theorem Evaluator.runProgram_unplaced (hm : m.Fit (.quiet Native.IsBuiltin)) (depth : Nat)
    (p : Program) (s : Nat) :
    unplacedResult ((runProgram toolbox depth p s).run m)
      = restingResult ((runProgram toolbox depth p.unplaced s).run m.unplaced) := by
  have hends := (mirrors (ρ := .erase) (R := fun _ => True) toolbox_mirrors depth).program p
    (s := s) trivial none m m.unplaced (mirrors_unplaced hm)
  rw [show p.statements.map Relocation.erase.stmt = Stmt.unplacedAll p.statements from
    (Stmt.unplacedAll_eq_map _).symm] at hends
  rw [Program.unplaced]
  cases hx : (runProgram toolbox depth p s).run m with
  | ok v m' =>
    cases hy : (runProgram toolbox depth ⟨none, Stmt.unplacedAll p.statements⟩ s).run m.unplaced with
    | ok w n' =>
      rw [hx, hy] at hends
      rw [unplacedResult, restingResult, hends.2.1.unplaced_eq, Value.unplaced, ← hends.1.eq]
    | error stop' n' =>
      rw [hx, hy] at hends
      exact hends.elim
  | error stop m' =>
    cases hy : (runProgram toolbox depth ⟨none, Stmt.unplacedAll p.statements⟩ s).run m.unplaced with
    | ok w n' =>
      rw [hx, hy] at hends
      exact hends.elim
    | error stop' n' =>
      rw [hx, hy] at hends
      rw [unplacedResult, restingResult, hends.2.1.unplaced_eq, Stop.unplaced, ← hends.1]

end

namespace Session

/-- **Offsets do not influence runs.**  Let two programs be the same up to offsets, and two machines
with the builtins alone.  Then both runs come to a value or both stop early.  The values, the reasons
of the early ends, and the machines that are left, with their scopes, effects and calls, are the same up
to offsets. -/
theorem offsets_irrelevant (p q : Program) (hpq : p.unplaced = q.unplaced) (m n : Machine)
    (hm : m.Fit (.quiet Native.IsBuiltin)) (hn : n.Fit (.quiet Native.IsBuiltin))
    (hmn : m.unplaced = n.unplaced) (depth s : Nat) :
    match (Evaluator.runProgram toolbox depth p s).run m,
      (Evaluator.runProgram toolbox depth q s).run n with
    | .ok v m', .ok w n' => v.unplaced = w.unplaced ∧ m'.unplaced = n'.unplaced
    | .error stop m', .error stop' n' =>
      stop.unplaced = stop'.unplaced ∧ m'.unplaced = n'.unplaced
    | _, _ => False := by
  have hsame : unplacedResult ((Evaluator.runProgram toolbox depth p s).run m)
      = unplacedResult ((Evaluator.runProgram toolbox depth q s).run n) := by
    rw [Evaluator.runProgram_unplaced hm, Evaluator.runProgram_unplaced hn, hpq, hmn]
  cases hx : (Evaluator.runProgram toolbox depth p s).run m with
  | ok v m' =>
    cases hy : (Evaluator.runProgram toolbox depth q s).run n with
    | ok w n' =>
      rw [hx, hy] at hsame
      exact EStateM.Result.ok.inj hsame
    | error stop' n' =>
      rw [hx, hy] at hsame
      exact absurd hsame (by simp [unplacedResult])
  | error stop m' =>
    cases hy : (Evaluator.runProgram toolbox depth q s).run n with
    | ok w n' =>
      rw [hx, hy] at hsame
      exact absurd hsame (by simp [unplacedResult])
    | error stop' n' =>
      rw [hx, hy] at hsame
      exact EStateM.Result.error.inj hsame

/-- A new session in which `g` is a function that asks for `y`, from a text with `g` at the offset. -/
def withG (pos : Nat) : Machine :=
  { start true [] [] with
    heap := (start true [] []).heap.define globalScope "g"
      (.closure 2 [] (.ret pos (.name (pos + 7) "y")) globalScope) }

/-- A call of `g` at the offset. -/
def callG (pos : Nat) : Program := ⟨some pos, [.expr (.call pos (.name pos "g") [])]⟩

theorem withG_fit (pos : Nat) : (withG pos).Fit (.quiet Native.IsBuiltin) := by
  obtain ⟨hfit, hglobal⟩ := start_fit_builtins
  have hg : (Value.closure 2 [] (.ret pos (.name (pos + 7) "y")) globalScope).Fits
      (.quiet Native.IsBuiltin) (start true [] []).heap.size :=
    ⟨hglobal, fun x _ => Policy.lenient_admits x⟩
  have hstep : Step (.quiet Native.IsBuiltin) (fun _ => True) (start true [] []) (withG pos) :=
    .define globalScope "g" _ hglobal hg (.inl trivial)
  exact hfit.step hstep

theorem withG_unplaced (pos : Nat) : (withG pos).unplaced = (withG 0).unplaced := by
  have hscopes : (withG pos).heap.scopes.map (Scope.relocate .erase)
      = (withG 0).heap.scopes.map (Scope.relocate .erase) := by
    apply Array.toList_inj.1
    rw [Array.toList_map, Array.toList_map]
    rfl
  rw [Machine.unplaced, Machine.unplaced, hscopes]
  rfl

theorem offsets_irrelevant_unboundName :
    (callG 0).unplaced = (callG 5).unplaced ∧ (withG 0).unplaced = (withG 9).unplaced ∧
      ∃ pos m', (Evaluator.runProgram toolbox 9 (callG 5) globalScope).run (withG 9)
        = .error (.failure ⟨.unbound "y", pos⟩) m' := by
  have hends := offsets_irrelevant (callG 0) (callG 5) rfl (withG 0) (withG 9) (withG_fit 0)
    (withG_fit 9) (withG_unplaced 9).symm 9 globalScope
  obtain ⟨m', hx⟩ : ∃ m', (Evaluator.runProgram toolbox 9 (callG 0) globalScope).run (withG 0)
      = .error (.failure ⟨.unbound "y", some 7⟩) m' := ⟨_, rfl⟩
  refine ⟨rfl, (withG_unplaced 9).symm, ?_⟩
  cases hy : (Evaluator.runProgram toolbox 9 (callG 5) globalScope).run (withG 9) with
  | ok w n' =>
    rw [hx, hy] at hends
    exact hends.elim
  | error stop n' =>
    rw [hx, hy] at hends
    cases stop with
    | fault f => exact absurd hends.1 (by simp [Stop.unplaced, Stop.relocate])
    | failure f =>
      have hcause : Cause.unbound "y" = f.cause :=
        (Failure.mk.inj (Stop.failure.inj hends.1)).1
      exact ⟨f.pos, n', by rw [hcause]⟩

end Session

end Klex
