import Klex.Proofs.Evaluator.Resumption
import Klex.Proofs.Session.Traces

/-!
# Splitting a program into scripts

* **`programs_split`** — **two programs run one after the other do what the longer program does.**  What
  comes after an early end or a `return` is not run, and else the second goes on from the machine that the
  first leaves.  As scripts of a session with the builtins alone, they leave the same scopes and, one after
  the other, the same effects.

The second script starts without effects and without a current node, and the longer program is in the
middle of a run at that point.  The builtins write effects only, and no call is in progress between two
statements, so the difference does not show.
-/

namespace Klex

open Evaluator

namespace Session

theorem resumes_builtins (depth : Nat) :
    Evaluator.Resumes (Value.UsesOnly Native.IsBuiltin) toolbox depth := by
  refine Evaluator.resumes Value.usesOnly_trait (toolbox_resumes toolbox_keeps_usesOnly ?_) depth
  intro id name discards code bound hnative
  exact hnative.code

theorem orderly_builtins : toolbox.Orderly (Value.UsesOnly Native.IsBuiltin) := by
  refine toolbox_orderly_usesOnly ?_
  rintro code (rfl | rfl) <;> simp [Native.LeavesCalls]

/-- Where a program has neither failed nor returned, no call is in progress, and the next script starts
from the same machine without its effects. -/
theorem resumed_of_runToReturn {depth : Nat} {p : Program} {m m₁ : Machine}
    (hm : m.All (Value.UsesOnly Native.IsBuiltin))
    (h : (runToReturn toolbox depth p globalScope).run (Exec.clear.after m) = .ok none m₁) :
    m₁.All (Value.UsesOnly Native.IsBuiltin) ∧
      m₁ = (Exec.clear.after m₁).resumed m₁.effects m₁.current := by
  have hkeeps := Evaluator.keeps Value.usesOnly_trait orderly_builtins.values depth
  have hrestores := Evaluator.restores Value.usesOnly_trait orderly_builtins depth
  have hcleared := Exec.keeps_clear.after hm
  have hframes : m₁.frames = [] := (hrestores.lines hkeeps globalScope p.statements).ok hcleared h
  refine ⟨((keeps_untilReturn (keeps_line hkeeps globalScope) p.statements).ok hcleared h).1, ?_⟩
  show m₁ = { m₁ with effects := m₁.effects ++ #[], frames := [] }
  rw [Array.append_empty, ← hframes]

/-- **A program may be split into scripts.**  A longer program stops early as its first part does, on the
same machine; has the value that the first part returns, on the same machine; and comes else to what the
second part comes to on the machine that the first leaves, or, if the second is empty, to the value of the
first.  A script runs the program that its text is parsed to.  Let the natives of a machine be the
builtins, and let the first program neither stop early nor return.  Then the two programs, run as scripts,
leave the same scopes as the longer one, and its effects are theirs one after the other. -/
theorem programs_split :
    (∀ (host : Host) (depth : Nat) (p q : Program) (s : ScopeId) (m : Machine),
      match (runToReturn host depth p s).run m with
      | .error stop m' => (runProgram host depth p s).run m = .error stop m' ∧
          (runProgram host depth (p ++ q) s).run m = .error stop m'
      | .ok (some v) m' => (runProgram host depth p s).run m = .ok v m' ∧
          (runProgram host depth (p ++ q) s).run m = .ok v m'
      | .ok none m' => ∃ v, (runProgram host depth p s).run m = .ok v m' ∧
          (runProgram host depth (p ++ q) s).run m
            = if q.statements.isEmpty then .ok v m' else (runProgram host depth q s).run m') ∧
    (∀ (host : Host) (depth : Nat) (source : String) (p : Program),
      Program.parse depth source = .ok p →
      runScript host (depth + 1) source = runTree host depth source p) ∧
    ∀ (depth : Nat) (p q : Program) (m m₁ : Machine), m.All (Value.UsesOnly Native.IsBuiltin) →
      (runToReturn toolbox depth p globalScope).run (Exec.clear.after m) = .ok none m₁ →
      ∀ first second whole : String,
        ∃ v, (runTree toolbox depth first p).run m = .ok ⟨.ok v, m₁.effects.toList⟩ m₁ ∧
          ReportsAlike m₁.effects.toList ((runTree toolbox depth second q).run m₁)
            ((runTree toolbox depth whole (p ++ q)).run m) := by
  refine ⟨runProgram_append, fun host depth source p => runScript_eq_runTree host depth, ?_⟩
  intro depth p q m m₁ hm hp first second whole
  obtain ⟨hm₁, hresumed⟩ := resumed_of_runToReturn hm hp
  have happend := runProgram_append toolbox depth p q globalScope (Exec.clear.after m)
  rw [hp] at happend
  obtain ⟨v, hfirst, hwhole⟩ := happend
  refine ⟨v, ?_, ?_⟩
  · show (reporting first _).run (Exec.clear.after m) = _
    rw [run_reporting, hfirst]
  · show ReportsAlike _ ((reporting second _).run (Exec.clear.after m₁))
      ((reporting whole _).run (Exec.clear.after m))
    cases hempty : q.statements.isEmpty with
    | true =>
      have hnil : q.statements = [] := List.isEmpty_iff.1 hempty
      have hsecond : (runProgram toolbox depth q globalScope).run (Exec.clear.after m₁)
          = .ok .null (Exec.clear.after m₁) := by
        rw [runProgram, hnil]
        rfl
      rw [hempty, if_pos rfl] at hwhole
      rw [run_reporting, run_reporting, hsecond, hwhole]
      refine ⟨rfl, ?_, (List.append_nil _).symm⟩
      rw [hresumed]
      rfl
    | false =>
      -- the second script starts from the machine that the longer program resumes from
      have hcleared := Exec.keeps_clear.after hm₁
      have hkeeps := Evaluator.keeps Value.usesOnly_trait orderly_builtins.values depth
      obtain ⟨current, hsecond⟩ := (resumes_builtins depth).program hkeeps q globalScope
        m₁.effects m₁.current _ hcleared
      rw [hempty, if_neg (by simp)] at hwhole
      rw [← hresumed] at hsecond
      exact reporting_resumed (hwhole.trans hsecond)

/-- A program that binds `x` and prints it. -/
def printingX : Program :=
  ⟨some 0, [.assign 0 "x" (.literal 4 (.int 1)), .expr (.call 6 (.name 6 "print") [.name 12 "x"])]⟩

/-- A program that calls a function, which asks for `y` after `x` is printed. -/
def askingForY : Program :=
  ⟨some 0, [.expr (.call 0 (.group 0 (.function 1 [] (.block (some 14)
    [.expr (.call 14 (.name 14 "print") [.name 20 "x"]), .ret 23 (.name 30 "y")]))) [])]⟩

theorem programs_split_failing :
    ∃ m₁ v, (runTree toolbox 9 "" printingX).run (start true [] [])
        = .ok ⟨.ok v, [⟨"stdout", "1"⟩]⟩ m₁ ∧
      ReportsAlike [⟨"stdout", "1"⟩] ((runTree toolbox 9 "" askingForY).run m₁)
        ((runTree toolbox 9 "" (printingX ++ askingForY)).run (start true [] [])) := by
  obtain ⟨m₁, hp, heffects⟩ : ∃ m₁, (runToReturn toolbox 9 printingX globalScope).run
      (Exec.clear.after (start true [] [])) = .ok none m₁ ∧ m₁.effects.toList = [⟨"stdout", "1"⟩] :=
    ⟨_, rfl, by decide +kernel⟩
  obtain ⟨v, hfirst, hwhole⟩ := programs_split.2.2 9 printingX askingForY _ m₁
    start_fit_builtins.1.usesOnly hp "" "" ""
  rw [heffects] at hfirst hwhole
  exact ⟨m₁, v, hfirst, hwhole⟩

end Session

end Klex
