import Klex.Operator

/-!
# What operators give

* **`applyOperator_ok`** — the result of an operator is a truth value, a double or a text, so arithmetic
  never makes a whole number.
* **`applyOperator_error`** — an operator that there is fails only on a whole number that is too large to
  become a double.
-/

namespace Klex

namespace Operator

variable {f : Float → Float → Value} {a b v : Value} {fault : Fault}

theorem onNumbers_ok (h : onNumbers f a b = .ok (some v)) : ∃ x y, v = f x y := by
  rw [onNumbers] at h
  split at h
  · next left right _ _ =>
    cases left with
    | error e => simp [bind, Except.bind] at h
    | ok x =>
      cases right with
      | error e => simp [bind, Except.bind] at h
      | ok y =>
        simp only [bind, Except.bind, pure, Except.pure, Except.ok.injEq, Option.some.injEq] at h
        exact ⟨x, y, h.symm⟩
  · simp [pure, Except.pure] at h

theorem onNumbers_error (h : onNumbers f a b = .error fault) :
    ∃ n : Int, (a = .int n ∨ b = .int n) ∧ floatOfInt n = .error fault := by
  -- only the conversion of a whole number can fail
  have hconvert : ∀ {v : Value} {e : Fault}, v.toFloat? = some (.error e) →
      ∃ n : Int, v = .int n ∧ floatOfInt n = .error e := by
    intro v e hv
    cases v <;> simp only [Value.toFloat?, Option.some.injEq, reduceCtorEq] at hv
    exact ⟨_, rfl, hv⟩
  rw [onNumbers] at h
  split at h
  · next left right hleft hright =>
    cases left with
    | error e =>
      simp only [bind, Except.bind, Except.error.injEq] at h
      obtain ⟨n, hn, hfloat⟩ := hconvert hleft
      exact ⟨n, .inl hn, h ▸ hfloat⟩
    | ok x =>
      cases right with
      | error e =>
        simp only [bind, Except.bind, Except.error.injEq] at h
        obtain ⟨n, hn, hfloat⟩ := hconvert hright
        exact ⟨n, .inr hn, h ▸ hfloat⟩
      | ok y => simp [bind, Except.bind, pure, Except.pure] at h
  · simp [pure, Except.pure] at h

end Operator

section

variable {op : String} {a b v : Value} {fault : Fault}

/-- **Operators give truth values, doubles and texts.** -/
theorem applyOperator_ok (h : applyOperator op a b = .ok (some v)) :
    ∃ l : Literal, v = .ofLiteral l ∧ ∀ n, l ≠ .int n := by
  have hbool : ∀ c : Bool, ∃ l : Literal, .bool c = Value.ofLiteral l ∧ ∀ n, l ≠ .int n :=
    fun c => ⟨.bool c, rfl, by simp⟩
  have hfloat : ∀ x : Float, ∃ l : Literal, .float x = Value.ofLiteral l ∧ ∀ n, l ≠ .int n :=
    fun x => ⟨.float x, rfl, by simp⟩
  have hnumbers : ∀ {f : Float → Float → Value}, Operator.onNumbers f a b = .ok (some v) →
      (∀ x y, ∃ l : Literal, f x y = .ofLiteral l ∧ ∀ n, l ≠ .int n) →
      ∃ l : Literal, v = .ofLiteral l ∧ ∀ n, l ≠ .int n := by
    intro f hf hall
    obtain ⟨x, y, rfl⟩ := Operator.onNumbers_ok hf
    exact hall x y
  rw [applyOperator] at h
  split at h
  · next o _ =>
    cases o with
    | add =>
      rw [Operator.apply] at h
      split at h
      · simp only [Except.ok.injEq, Option.some.injEq] at h
        exact ⟨.text _, h.symm, by simp⟩
      · exact hnumbers h fun _ _ => hfloat _
    | subtract => exact hnumbers h fun _ _ => hfloat _
    | multiply => exact hnumbers h fun _ _ => hfloat _
    | divide => exact hnumbers h fun _ _ => hfloat _
    | less => exact hnumbers h fun _ _ => hbool _
    | greater => exact hnumbers h fun _ _ => hbool _
    | atMost => exact hnumbers h fun _ _ => hbool _
    | atLeast => exact hnumbers h fun _ _ => hbool _
    | equal =>
      simp only [Operator.apply, Except.ok.injEq, Option.some.injEq] at h
      exact h ▸ hbool _
    | or =>
      simp only [Operator.apply, Except.ok.injEq, Option.some.injEq] at h
      exact h ▸ hbool _
    | and =>
      simp only [Operator.apply, Except.ok.injEq, Option.some.injEq] at h
      exact h ▸ hbool _
  · simp at h

/-- **An operator that there is fails only on a whole number that is too large.** -/
theorem applyOperator_error (hop : (Operator.ofSymbol? op).isSome = true)
    (h : applyOperator op a b = .error fault) :
    ∃ n : Int, (a = .int n ∨ b = .int n) ∧ floatOfInt n = .error fault := by
  rw [applyOperator] at h
  split at h
  · next o _ =>
    cases o with
    | add =>
      rw [Operator.apply] at h
      split at h
      · simp at h
      · exact Operator.onNumbers_error h
    | subtract => exact Operator.onNumbers_error h
    | multiply => exact Operator.onNumbers_error h
    | divide => exact Operator.onNumbers_error h
    | less => exact Operator.onNumbers_error h
    | greater => exact Operator.onNumbers_error h
    | atMost => exact Operator.onNumbers_error h
    | atLeast => exact Operator.onNumbers_error h
    | equal => simp [Operator.apply] at h
    | or => simp [Operator.apply] at h
    | and => simp [Operator.apply] at h
  · next hnone =>
    rw [hnone] at hop
    simp at hop

end

end Klex
