import Klex.Proofs.Grammar.Outcome
import Klex.Proofs.Grammar.Reads

/-!
# Nothing dropped, doubled or moved

* **`unlimited_yields`** — a row of significant tokens that is a program is a derivation of it.
* **`ofTokensWithin_yields`** — **whatever row of tokens is taken for a program, its significant tokens
  are a derivation of that program**, in either way of reading and with any room; so each of them
  has exactly one place in the tree, and none is of an unknown kind.
-/

namespace Klex.Grammar

open Rule

theorem unlimited_yields {row : List Token} {p : Program} (h : unlimited tight row = .ok p) :
    p.Yields row := by
  obtain ⟨next, trail, htext, hrest⟩ := verdict_ok h
  exact text_accepted reads_endless htext hrest

/-- An unknown token is significant. -/
theorem mem_significant_of_unknown {tokens : List Token} {t : Token} (ht : t ∈ tokens)
    (hk : t.kind = .unknown) : t ∈ significant tokens := by
  refine List.mem_filter.2 ⟨ht, ?_⟩
  rw [Token.isTrivia, hk]
  rfl

/-- **A program is derived from the significant tokens of its row**, and no token of the row is of an
unknown kind. -/
theorem ofTokensWithin_yields (reading : Reading) (room : Nat) (tokens : List Token) (p : Program)
    (h : Program.ofTokensWithin reading room tokens = .ok p) :
    p.Yields (significant tokens) ∧ ∀ t ∈ tokens, t.kind ≠ .unknown := by
  have hyields := unlimited_yields (unlimited_of_ofTokensWithin h)
  refine ⟨hyields, fun t ht hk => ?_⟩
  have hplace := hyields.known t (mem_significant_of_unknown ht hk)
  rw [hk] at hplace
  exact absurd hplace (by decide)

/-- The row `f(, x)`: a call whose first argument is missing. -/
def lateArgument : List Token :=
  [.spelled .identifier "f" 0, .spelled .openParen "(" 1, .spelled .comma "," 2, .blank " " 3,
   .spelled .identifier "x" 4, .spelled .closeParen ")" 5]

theorem ofTokensWithin_yields_lateArgument :
    Program.ofTokens callLimit lateArgument
        = .ok ⟨some 0, [.expr (.call 0 (.name 0 "f") [.name 4 "x"])]⟩ ∧
      Program.Yields ⟨some 0, [.expr (.call 0 (.name 0 "f") [.name 4 "x"])]⟩
        (significant lateArgument) := by
  have h : Program.ofTokens callLimit lateArgument
      = .ok ⟨some 0, [.expr (.call 0 (.name 0 "f") [.name 4 "x"])]⟩ := rfl
  exact ⟨h, (ofTokensWithin_yields .plain callLimit lateArgument _ h).1⟩

end Klex.Grammar
