import Klex.Proofs.Grammar.Recall
import Klex.Proofs.Grammar.Skipping

/-!
# What a row of tokens comes to

A program, or a failure that names a token of the row.

* **`Program.parse_ok`**, **`Program.parse_failure`** — what a text comes to is what its strict tokens come
  to.
* **`ofTokensWithin_ok_iff`** — a row is a program when its significant tokens are, without layout.
* **`RefusedAt`** — the row is refused, and the token that does not fit stands at the given place;
  past the last token it is the end (`failureAt`).
* **`refusedAt_iff`** — the place is that of the significant token that does not fit.
* **`TooDeep`** — the row is refused because of its nesting, at the furthest token.
* **`refusedAt_of_error`** — a row that is no program is nested too deeply or refused at a place.
-/

namespace Klex

open Grammar

theorem Program.parse_of_tokens {room : Nat} {source : String} {tokens : List Token} {p : Program}
    (htokens : tokenize .strict source = .ok tokens)
    (h : Program.ofTokens (roomForRules room) tokens = .ok p) : Program.parse room source = .ok p := by
  rw [Program.parse, htokens]
  simp only [h]

/-- A program is parsed from the strict tokens of its text. -/
theorem Program.parse_ok {room : Nat} {source : String} {p : Program}
    (h : Program.parse room source = .ok p) :
    ∃ tokens, tokenize .strict source = .ok tokens ∧
      Program.ofTokens (roomForRules room) tokens = .ok p := by
  rw [Program.parse] at h
  cases htokens : tokenize .strict source with
  | error stop =>
    rw [htokens] at h
    cases h
  | ok tokens =>
    cases hparse : Program.ofTokens (roomForRules room) tokens with
    | error failure =>
      simp only [htokens, hparse] at h
      cases h
    | ok q =>
      simp only [htokens, hparse] at h
      cases h
      exact ⟨tokens, rfl, hparse⟩

/-- A text fails to be parsed because it has no strict tokens or because these are no program. -/
theorem Program.parse_failure {room : Nat} {source : String} {f : Failure}
    (h : Program.parse room source = .error (.failure f)) :
    tokenize .strict source = .error (.failure f) ∨
      ∃ tokens, tokenize .strict source = .ok tokens ∧
        Program.ofTokens (roomForRules room) tokens = .error f := by
  rw [Program.parse] at h
  cases htokens : tokenize .strict source with
  | error stop =>
    rw [htokens] at h
    cases h
    exact .inl rfl
  | ok tokens =>
    cases hparse : Program.ofTokens (roomForRules room) tokens with
    | error failure =>
      simp only [htokens, hparse] at h
      cases h
      exact .inr ⟨tokens, rfl, hparse⟩
    | ok q =>
      simp only [htokens, hparse] at h
      cases h

/-- What is no program fails as a refusal says. -/
theorem Program.ofTokens_error {room : Nat} {tokens : List Token} {f : Failure}
    (h : Program.ofTokens room tokens = .error f) : ∃ refusal : Refusal, f = refusal.toFailure tokens := by
  rw [Program.ofTokens, Program.ofTokensWithin] at h
  split at h
  · cases h
  · next refusal _ =>
    cases h
    exact ⟨refusal, rfl⟩

/-- The failure for a text that is nested too deeply, at the furthest token that was not accepted. -/
def Failure.tooDeep (pos : Nat) : Failure := ⟨.nestedTooDeeply, some pos⟩

namespace Grammar

open Rule

/-- The outcome is the failure of a row that is nested too deeply.  It names a token of the row, or the
end. -/
def TooDeep (tokens : List Token) (outcome : Except Failure Program) : Prop :=
  ∃ k ≤ tokens.length, outcome = .error (Failure.tooDeep (offsetAt tokens k))

/-- As much room as a row of tokens can need. -/
def ampleFor (tokens : List Token) : Nat := ample (.start (significant tokens))

/-! ### Programs -/

theorem ofTokensWithin_eq_ok {reading : Reading} {room : Nat} {tokens : List Token} {p : Program} :
    Program.ofTokensWithin reading room tokens = .ok p ↔ run skip reading room tokens = .ok p := by
  rw [Program.ofTokensWithin]
  cases run skip reading room tokens <;> simp

/-- **A row of tokens is a program when its significant tokens are**, with no layout between them. -/
theorem ofTokensWithin_ok_iff {reading : Reading} {room : Nat} {tokens : List Token} {p : Program} :
    Program.ofTokensWithin reading room tokens = .ok p ↔
      run tight reading room (significant tokens) = .ok p := by
  rw [ofTokensWithin_eq_ok]
  have h := run_skipping reading room tokens
  generalize run skip reading room tokens = out at h
  generalize run tight reading room (significant tokens) = out' at h
  cases h <;> simp

/-- Where a whole text gives up, the furthest index is in the row. -/
theorem furthest_text {gap : Rule Unit} (hg : Passes gap) {row : List Token} {r : Rules}
    (hs : ∀ calls, Steady row 1 (r.statement calls)) :
    (text gap r (.start row) .empty).2.furthest ≤ row.length := by
  have hstep := steady_text (hg.steady row) hs (.start row) .empty (Cursor.start_in row)
    (Trail.sane_empty row)
  generalize text gap r (.start row) .empty = out at hstep ⊢
  obtain ⟨hu, -, -, -⟩ | ⟨hu, -, -⟩ | ⟨hu, -⟩ := hstep <;> exact hu.bound

/-- A whole text that gives up names a token of the row, or the end. -/
theorem tooDeep_le {gap : Rule Unit} (hg : Passes gap) {row : List Token} {r : Rules}
    (hs : ∀ calls, Steady row 1 (r.statement calls))
    (h : GaveUp (verdict (text gap r (.start row) .empty))) :
    ∃ k ≤ row.length, verdict (text gap r (.start row) .empty) = .error (.tooDeep k) := by
  have hbound := furthest_text hg hs
  have hdeep := verdict_tooDeep.1 h
  rcases hout : text gap r (.start row) .empty with ⟨reply, trail⟩
  rw [hout] at hbound hdeep
  obtain rfl : reply = .tooDeep := hdeep
  exact ⟨trail.furthest, hbound, rfl⟩

theorem tooDeep_of_gaveUp {reading : Reading} {room : Nat} {tokens : List Token}
    (h : GaveUp (run skip reading room tokens)) :
    TooDeep tokens (Program.ofTokensWithin reading room tokens) := by
  obtain ⟨k, hk, hrun⟩ := tooDeep_le passes_skip
    (steady_rules (passes_skip.steady tokens) reading room).statement h
  refine ⟨k, hk, ?_⟩
  rw [Program.ofTokensWithin, run, program, hrun]
  rfl

/-- A run on the whole row gives up when one on the significant tokens does. -/
theorem gaveUp_iff {reading : Reading} {room : Nat} {tokens : List Token} :
    GaveUp (run skip reading room tokens) ↔ GaveUp (run tight reading room (significant tokens)) := by
  unfold GaveUp
  have h := run_skipping reading room tokens
  generalize run skip reading room tokens = out at h
  generalize run tight reading room (significant tokens) = out' at h
  cases h <;> simp

/-- Layout takes no room. -/
theorem not_gaveUp_of_ampleFor (reading : Reading) {room : Nat} {tokens : List Token}
    (h : ampleFor tokens ≤ room) : ¬ GaveUp (run skip reading room tokens) := by
  rw [gaveUp_iff]
  exact run_not_gaveUp passes_tight reading h

/-- A row that is a program when nesting is not limited is that program in either way of reading,
unless the room does not suffice. -/
theorem ofTokensWithin_of_unlimited {tokens : List Token} {p : Program}
    (h : unlimited tight (significant tokens) = .ok p) (reading : Reading) (room : Nat) :
    (ampleFor tokens ≤ room → Program.ofTokensWithin reading room tokens = .ok p) ∧
      (Program.ofTokensWithin reading room tokens = .ok p ∨
        TooDeep tokens (Program.ofTokensWithin reading room tokens)) := by
  refine ⟨fun hroom => ?_, ?_⟩
  · rw [ofTokensWithin_ok_iff, run_eq_unlimited passes_tight reading hroom, h]
  · rcases run_eq_or passes_tight reading room (significant tokens) with hrun | hrun
    · exact .inr (tooDeep_of_gaveUp (gaveUp_iff.2 hrun))
    · exact .inl (ofTokensWithin_ok_iff.2 (hrun.trans h))

/-- With ample room a text is the program that its tokens are when nesting is not limited. -/
theorem parse_of_unlimited {room : Nat} {source : String} {tokens : List Token} {p : Program}
    (htokens : tokenize .strict source = .ok tokens)
    (h : unlimited tight (significant tokens) = .ok p) (hroom : ampleFor tokens ≤ roomForRules room) :
    Program.parse room source = .ok p :=
  Program.parse_of_tokens htokens ((ofTokensWithin_of_unlimited h .plain (roomForRules room)).1 hroom)

/-- A program that a row of tokens is with some room is what the row is without a limit. -/
theorem unlimited_of_ofTokensWithin {reading : Reading} {room : Nat} {tokens : List Token}
    {p : Program} (h : Program.ofTokensWithin reading room tokens = .ok p) :
    unlimited tight (significant tokens) = .ok p := by
  rw [ofTokensWithin_ok_iff] at h
  rcases run_eq_or passes_tight reading room (significant tokens) with ⟨index, hrun⟩ | hrun
  · rw [hrun] at h
    simp at h
  · exact hrun.symm.trans h

/-! ### Refusals -/

/-- The row of tokens is refused, and what does not fit stands at the place. -/
def RefusedAt (reading : Reading) (room : Nat) (tokens : List Token) (k : Nat) : Prop :=
  run skip reading room tokens = .error (.stuckAt k)

/-- The failure that names what stands at a place: the token there, or the end if there is none. -/
def failureAt (tokens : List Token) (k : Nat) : Failure :=
  match tokens[k]? with
  | some t => ⟨.unexpected t.text, some t.pos⟩
  | none => ⟨.unexpectedEnd, some (endOf tokens)⟩

/-- **What does not fit is a significant token**, or the end: the one that the significant tokens alone are
refused at. -/
theorem refusedAt_iff {reading : Reading} {room : Nat} {tokens : List Token} {k : Nat} :
    RefusedAt reading room tokens k ↔ ∃ index,
      run tight reading room (significant tokens) = .error (.stuckAt index) ∧
        k = place tokens index := by
  unfold RefusedAt
  have h := run_skipping reading room tokens
  generalize run skip reading room tokens = out at h
  generalize run tight reading room (significant tokens) = out' at h
  cases h with
  | ok p => simp
  | stuckAt index =>
    constructor
    · intro heq
      obtain rfl : place tokens index = k := by simpa using heq
      exact ⟨index, rfl, rfl⟩
    · rintro ⟨index', heq, rfl⟩
      obtain rfl : index = index' := by simpa using heq
      rfl
  | tooDeep => simp

/-- A refusal names what stands at its place. -/
theorem RefusedAt.failure {reading : Reading} {room : Nat} {tokens : List Token} {k : Nat}
    (h : RefusedAt reading room tokens k) :
    k ≤ tokens.length ∧
      Program.ofTokensWithin reading room tokens = .error (failureAt tokens k) := by
  obtain ⟨index, -, hplace⟩ := refusedAt_iff.1 h
  refine ⟨hplace ▸ place_le tokens index, ?_⟩
  rw [Program.ofTokensWithin, show run skip reading room tokens = .error (.stuckAt k) from h]
  rfl

/-- Whatever is no program is nested too deeply or is refused at a place. -/
theorem ofTokensWithin_cases (reading : Reading) (room : Nat) (tokens : List Token) :
    (∃ p, Program.ofTokensWithin reading room tokens = .ok p) ∨
      TooDeep tokens (Program.ofTokensWithin reading room tokens) ∨
        ∃ k, RefusedAt reading room tokens k := by
  rcases hrun : run skip reading room tokens with (index | index) | p
  · exact .inr (.inl (tooDeep_of_gaveUp ⟨index, hrun⟩))
  · exact .inr (.inr ⟨index, hrun⟩)
  · exact .inl ⟨p, ofTokensWithin_eq_ok.2 hrun⟩

theorem refusedAt_of_error {reading : Reading} {room : Nat} {tokens : List Token}
    {failure : Failure} (h : Program.ofTokensWithin reading room tokens = .error failure)
    (hdeep : failure.cause ≠ .nestedTooDeeply) :
    ∃ k, RefusedAt reading room tokens k ∧ failure = failureAt tokens k := by
  rcases ofTokensWithin_cases reading room tokens with ⟨p, hp⟩ | ⟨k, -, hk⟩ | ⟨k, hk⟩
  · simp [hp] at h
  · obtain rfl : Failure.tooDeep _ = failure := by simpa [hk] using h
    exact absurd rfl hdeep
  · refine ⟨k, hk, ?_⟩
    simpa [hk.failure.2] using h.symm

end Grammar

end Klex
