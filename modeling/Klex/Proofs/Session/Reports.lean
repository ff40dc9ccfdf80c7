import Klex.Proofs.Host.Toolbox
import Klex.Proofs.Numeric.Conversion
import Klex.Proofs.Session.Course
import Klex.Proofs.Token.Standard

/-!
# Every script of a plain session is reported

A session with the builtins alone knows no whole numbers but those of literals, since arithmetic gives
doubles.  Literals are small enough for doubles, and every operator that a text can contain is defined.
So nothing is left that could be a fault, short of an exhausted stack.

* **`Policy.bounded`** — whole numbers of literals, operators that there are, the two builtins, and no
  fault but an exhausted stack; it is sound (`Policy.bounded_sound`), and the builtins keep to it
  (`toolbox_obeys_bounded`).
* **`runScript_error`** — a script ends without a report only by a fault.
* **`scripts_report`** — **every script of such a session is reported or exhausts the stack, whatever
  scripts ran before**, and all whole numbers that ever turn up are in range.
-/

namespace Klex

open Machine

/-- Whole numbers in range, operators that there are, the builtins, and no fault but one. -/
def Policy.bounded : Policy where
  atom v := ∀ n, v = .int n → Literal.InRange n
  operator op := (Operator.ofSymbol? op).isSome = true
  native code := code = .print ∨ code = .printNames
  fault f := f = .stackExhausted
  binding := False

/-- A literal is a whole number only as a value is one. -/
theorem Value.ofLiteral_eq_int {l : Literal} {n : Int} (h : Value.ofLiteral l = .int n) :
    l = .int n := by
  cases l <;> simp only [Value.ofLiteral, Value.int.injEq, reduceCtorEq] at h
  rw [h]

theorem Value.Fits.inRange {n : Nat} {k : Int} (h : (Value.int k).Fits .bounded n) :
    Literal.InRange k :=
  h k rfl

theorem Program.Sound.within {p : Program} (h : p.Sound) : p.Within .bounded := by
  intro x hx
  cases x with
  | literal pos value =>
    intro n hn
    rw [Value.ofLiteral_eq_int hn] at hx
    exact h.int hx
  | binary pos op left right => exact h.operator hx
  | _ => trivial

theorem Policy.bounded_sound : Policy.bounded.Sound where
  null _ h := by simp at h
  bool _ _ h := by simp at h
  exhausted := rfl
  result _ _ _ hv := by
    obtain ⟨l, rfl, hl⟩ := applyOperator_ok hv
    refine Value.ofLiteral_fits fun n hn => ?_
    exact absurd (Value.ofLiteral_eq_int hn) (hl n)
  overflow hop ha hb herror := by
    obtain ⟨n, hn, hfloat⟩ := applyOperator_error hop herror
    have hrange : Literal.InRange n := by
      rcases hn with rfl | rfl
      · exact ha.inRange
      · exact hb.inRange
    rw [Numeric.floatOfInt_ok hrange.1 hrange.2] at hfloat
    simp at hfloat
  parsed {room source p} hp := by
    have hsound := parse_sound room source
    rw [hp] at hsound
    exact hsound.within
  unparsed {room source stop} hstop := by
    have hsound := parse_sound room source
    rw [hstop] at hsound
    cases stop with
    | failure f => trivial
    | fault f => exact hsound.elim

/-- The builtins only send messages. -/
theorem toolbox_obeys_bounded : toolbox.Obeys .bounded 0 := by
  have habsent : Policy.bounded.atom .absent := fun _ h => by simp at h
  rintro reentry - code r m (rfl | rfl) - -
  · exact Toolbox.obeys_print habsent
  · exact Toolbox.obeys_printNames habsent

/-! ### Reports -/

namespace Evaluator

/-- A failure is reported, so only faults get through. -/
theorem reporting_error {source : String} {run : Exec Value} {m m' : Machine} {stop : Stop}
    (h : (reporting source run).run m = .error stop m') : ∃ f, stop = .fault f := by
  rw [reporting] at h
  cases hrun : (do let v ← run; return ⟨.ok v, (← get).effects.toList⟩ : Exec (Report Value)).run m with
  | ok r m₁ =>
    rw [Exec.run_tryCatch_ok hrun] at h
    cases h
  | error stop' m₁ =>
    rw [Exec.run_tryCatch_error hrun] at h
    cases stop' with
    | fault f => exact ⟨f, (EStateM.Result.error.inj h).1.symm⟩
    -- reporting itself never stops
    | failure f => cases h

theorem runScript_error {host : Host} {depth : Nat} {source : String} {m m' : Machine} {stop : Stop}
    (h : (runScript host depth source).run m = .error stop m') : ∃ f, stop = .fault f := by
  cases depth with
  | zero =>
    rw [runScript] at h
    exact ⟨.stackExhausted, (EStateM.Result.error.inj h).1.symm⟩
  | succ depth =>
    rw [runScript] at h
    exact reporting_error h

end Evaluator

namespace Session

/-- **Every script of a plain session is reported.**  Let scripts have run, each to a depth of its own,
in a session with the builtins alone.  Then the next one comes to a report or exhausts the stack.  The
whole numbers in its value are in range, and so are those that scopes and calls hold before it, and
those that any part of a run leaves and comes to, from any state on the way.  A number in range
becomes a double, and every operator in the tree of a text is one that there is. -/
theorem scripts_report (earlier : List (Nat × String)) (depth : Nat) (source : String) :
    (match (Evaluator.runScript toolbox depth source).run
        (continued toolbox (start true [] []) earlier) with
      | .ok report _ => ∀ v, report.outcome = .ok v → ∀ n, .int n ∈ v.parts → Literal.InRange n
      | .error stop _ => stop = .fault .stackExhausted) ∧
    (∀ n, (continued toolbox (start true [] []) earlier).Holds (.int n) → Literal.InRange n) ∧
    (∀ m, Steps .bounded (fun _ => True) (continued toolbox (start true [] []) earlier) m →
      ∀ (d : Nat) (task : Task), task.Fits .bounded m →
        Steps .bounded (fun _ => True) m ((task.run toolbox d).after m) ∧
        (∀ n, ((task.run toolbox d).after m).Holds (.int n) → Literal.InRange n) ∧
        ∀ v, (task.run toolbox d).value? m = some v → ∀ n, .int n ∈ v.parts →
          Literal.InRange n) ∧
    (∀ n, Literal.InRange n → floatOfInt n = .ok (Float.ofInt n)) ∧
    ∀ room p, Program.parse room source = .ok p → ∀ pos op left right,
      Expr.binary pos op left right ∈ p.nodes → (Operator.ofSymbol? op).isSome = true := by
  have hP := Policy.bounded_sound
  have hequips : Equips .bounded true [] [] :=
    ⟨fun _ => by simp [builtins, Policy.bounded], by simp, by simp⟩
  have hstart := start_fit hP.null hequips
  have hsteps := continued_steps hP toolbox_obeys_bounded hstart.1 (Nat.zero_le _) hstart.2 earlier
  have hfit := hstart.1.steps hsteps
  have hglobal : globalScope < (continued toolbox (start true [] []) earlier).heap.size :=
    Nat.lt_of_lt_of_le hstart.2 hsteps.grows.size
  refine ⟨?_, fun n hn => (hfit.holds hn).inRange, ?_, ?_, ?_⟩
  · have hends := (Evaluator.conduct hP toolbox_obeys_bounded depth).script source (Nat.zero_le _)
      hglobal hfit
    split
    · next report m' hrun =>
      rw [hrun] at hends
      intro v hv n hn
      exact ((hends.2 v hv).part _ _ hn).inRange
    · next stop m' hrun =>
      rw [hrun] at hends
      obtain ⟨f, rfl⟩ := Evaluator.runScript_error hrun
      rw [show f = .stackExhausted from hends.2]
  · intro m hm d task htask
    have hfit := hfit.steps hm
    have hobeys := Task.obeys d hP toolbox_obeys_bounded (Nat.zero_le _) htask
    have hafter := hobeys.steps hfit
    refine ⟨hafter.widen fun _ _ => trivial, ?_, ?_⟩
    · exact fun n hn => ((hfit.steps hafter).holds hn).inRange
    · exact fun v hv n hn => ((hobeys.fits hfit v hv).part _ _ hn).inRange
  · exact fun n hn => Numeric.floatOfInt_ok hn.1 hn.2
  · intro room p hp pos op left right hnode
    have hsound := parse_sound room source
    rw [hp] at hsound
    exact hsound.operator hnode

/-- A function of an earlier script is called with a whole number. -/
example :
    (match (Evaluator.runScript toolbox 60 "f(41)").run
        (continued toolbox (start true [] []) [(90, "f = function(x) x + 1")]) with
      | .ok report _ => report.outcome.toOption.isSome
      | .error _ _ => false) = true := by
  decide +kernel

end Session

end Klex
