import Klex.Proofs.Grammar.Found
import Klex.Proofs.Grammar.Outcome

/-!
# Every clear tree is found

The rules find the tree that a row of tokens is derived from, if the tree is clear.

* **`Expr.Yields.found`**, **`Stmt.Yields.found`** — **a clear tree is found in every row that it is
  derived from.**
* **`unlimited_of_yields`** — the same for whole texts.
* **`ofTokensWithin_render`** — a clear program that is written down is read back, with any layout
  between its tokens.
-/

namespace Klex

open Grammar

/-! ### Clear trees -/

-- The recursion is on the derivation; rows of arguments and of statements are gone through beside it.
mutual

theorem Expr.Yields.found {e : Expr} {ts : List Token} :
    e.Yields ts → SpelledByName ts → e.isClear = true → ExprFound e ts
  | .literal h, _, _ => .literal h
  | .name h, hs, hc => .name h (hs.head h.1) hc
  | .group ho he hk, hs, hc => .group ho (he.found hs.tail.left hc) hk
  | .negate hb he, hs, hc => .negate hb (he.found hs.tail hc)
  | .binary hl ho hr, hs, hc => by
    obtain ⟨⟨hbasic, hleft⟩, hright⟩ := by simpa [Expr.isClear] using hc
    exact .binary (hl.found hs.left hleft) ho (hr.found hs.right.tail hright) hbasic
  | .call hf ho ha hk, hs, hc => by
    obtain ⟨⟨hbasic, hcallee⟩, hargs⟩ := by simpa [Expr.isClear] using hc
    exact .call (hf.found hs.left hcallee) ho
      (Expr.Yields.found_separated ha hs.right.tail.left hargs) hk hbasic hcallee
  | .function hw ho hp hk hb, hs, hc => by
    obtain ⟨-, hbody⟩ := Bool.and_eq_true_iff.1 hc
    exact .function hw (hs.head hw.1) ho hp hk (hb.found hs.tail.tail.right.tail hbody)

theorem Expr.Yields.found_separated {args : List Expr} {ts : List Token} :
    Separated Expr.Yields args ts → SpelledByName ts → Expr.areClear args = true →
    Separated ExprFound args ts
  | .full he hm, hs, hc => by
    obtain ⟨he', hm'⟩ := Bool.and_eq_true_iff.1 hc
    exact .full (he.found hs.left he') (Expr.Yields.found_further hm hs.right hm')
  | .bare hm, hs, hc => .bare (Expr.Yields.found_further hm hs hc)

theorem Expr.Yields.found_further {args : List Expr} {ts : List Token} :
    Sequence (AfterComma Expr.Yields) args ts → SpelledByName ts → Expr.areClear args = true →
    Sequence (AfterComma ExprFound) args ts
  | .nil, _, _ => .nil
  | .cons (.mk hk he) hm, hs, hc => by
    obtain ⟨he', hm'⟩ := Bool.and_eq_true_iff.1 hc
    exact .cons (.mk hk (he.found hs.left.tail he')) (Expr.Yields.found_further hm hs.right hm')

/-- **A clear statement is found in every row that it is derived from**, if the row is spelled as it is
called. -/
theorem Stmt.Yields.found {s : Stmt} {ts : List Token} :
    s.Yields ts → SpelledByName ts → s.isClear = true → StmtFound s ts
  | .expr he, hs, hc => .expr (he.found hs hc)
  | .block ho hb hk, hs, hc => by
    obtain ⟨hbody, hparen⟩ := Bool.and_eq_true_iff.1 hc
    exact .block ho (Stmt.Yields.found_sequence hb hs.tail.left hbody) hk hparen
  | .ret hw he, hs, hc => .ret hw (he.found hs.tail hc)
  | .assign ht hq he, hs, hc => by
    obtain ⟨htarget, hvalue⟩ := Bool.and_eq_true_iff.1 hc
    exact .assign ht (hs.head ht.1) hq (he.found hs.tail.tail hvalue) (by simpa using htarget)
  | .cond hw ho ht hk hy, hs, hc => by
    obtain ⟨htest, hyes⟩ := by simpa [Stmt.isClear, Stmt.isClearElse] using hc
    exact .cond hw ho (ht.found hs.tail.tail.left htest) hk (hy.found hs.tail.tail.right.tail hyes)
  | .condElse hw ho ht hk hy hl hn, hs, hc => by
    obtain ⟨⟨⟨htest, hyes⟩, hdangles⟩, hno⟩ := by
      simpa [Stmt.isClear, Stmt.isClearElse] using hc
    exact .condElse hw ho (ht.found hs.tail.tail.left htest) hk
      (hy.found hs.tail.tail.right.tail.left hyes) hl
      (hn.found hs.tail.tail.right.tail.right.tail hno) hdangles

theorem Stmt.Yields.found_sequence {body : List Stmt} {ts : List Token} :
    Sequence Stmt.Yields body ts → SpelledByName ts → Stmt.areClear body = true →
    Sequence StmtFound body ts
  | .nil, _, _ => .nil
  | .cons h hm, hs, hc => by
    obtain ⟨h', hm'⟩ := Bool.and_eq_true_iff.1 hc
    exact .cons (h.found hs.left h') (Stmt.Yields.found_sequence hm hs.right hm')

end

/-! ### Whole texts -/

namespace Grammar

open Rule

/-- **A clear program is found in every row that it is derived from**, if the row is spelled as it is
called. -/
theorem unlimited_of_yields {p : Program} {row : List Token} (h : p.Yields row) (hs : SpelledByName row)
    (hc : p.isClear = true) : unlimited tight row = .ok p := by
  obtain ⟨hbody, hparen⟩ := Bool.and_eq_true_iff.1 hc
  have hread : Read (.start row) row ⟨row.length, []⟩ := by
    refine ⟨(List.append_nil row).symm, ?_⟩
    show row.length = 0 + row.length
    rw [Nat.zero_add]
  have hstop : Rejects ((endless tight).statement 2) ⟨row.length, []⟩ :=
    rejects_statement fun x xs hx => by simp at hx
  have hmany := accepts_statements (Stmt.Yields.found_sequence h.statements hs hbody) hparen hread
    .nil hstop
  have htext : Accepts (text tight (endless tight)) (.start row)
      ⟨(Cursor.start row).pos?, p.statements⟩ _ :=
    hmany.placed.bind (.pure _)
  obtain ⟨pos, statements⟩ := p
  obtain rfl : pos = (Cursor.start row).pos? := h.pos
  exact unlimited_of_accepts htext

/-- Room for 33 calls is ample for a single token. -/
theorem ampleFor_single {room : Nat} {t : Token} (ht : t.isTrivia = false) (hroom : 33 ≤ room) :
    ampleFor [t] ≤ roomForRules room := by
  have hsignificant : significant [t] = [t] := significant_cons ht []
  rw [ampleFor, hsignificant, roomForRules]
  show 22 ≤ room - 11
  omega

/-- A text with a single token is the expression that stands for it. -/
theorem parse_single {room : Nat} (hroom : 33 ≤ room) {source : String} {t : Token}
    (htokens : tokenize .strict source = .ok [t]) (ht : t.isTrivia = false)
    (hs : t.kind = .identifier → t.text = t.name) {e : Expr} (he : e.Yields [t])
    (hclear : e.isClear = true) : Program.parse room source = .ok ⟨some t.pos, [.expr e]⟩ := by
  have hsignificant : significant [t] = [t] := significant_cons ht []
  have hyields : Program.Yields ⟨some t.pos, [.expr e]⟩ (significant [t]) := by
    rw [hsignificant]
    have hstatements : Sequence Stmt.Yields [.expr e] ([t] ++ []) := .cons (.expr he) .nil
    exact ⟨hstatements, rfl⟩
  have hspelled : SpelledByName (significant [t]) := by
    rw [hsignificant]
    intro x hx
    obtain rfl := List.mem_singleton.1 hx
    exact hs
  have hprogram : Program.isClear ⟨some t.pos, [.expr e]⟩ = true := by
    simp [Program.isClear, Stmt.areClear, Stmt.isClear, hclear]
  exact parse_of_unlimited htokens (unlimited_of_yields hyields hspelled hprogram)
    (ampleFor_single ht hroom)

/-- **A clear program that is written down is read back**, whatever layout stands between its tokens
and whatever their offsets are.  Nothing but the offsets of its nodes can differ. -/
theorem ofTokensWithin_render (p : Program) (tokens : List Token) (hclear : p.isClear = true)
    (h : (significant tokens).map Token.lexeme = p.render) :
    ∃ q : Program, q.unplaced = p.unplaced ∧ ∀ (reading : Reading) (room : Nat),
      (ampleFor tokens ≤ room → Program.ofTokensWithin reading room tokens = .ok q) ∧
      (Program.ofTokensWithin reading room tokens = .ok q ∨
        TooDeep tokens (Program.ofTokensWithin reading room tokens)) := by
  obtain ⟨q, hyields, hsame⟩ := p.yields_of_render h
  have hq : q.isClear = true := by
    rw [← q.isClear_unplaced, hsame, p.isClear_unplaced, hclear]
  exact ⟨q, hsame,
    ofTokensWithin_of_unlimited (unlimited_of_yields hyields (p.spelled_of_render h) hq)⟩

/-- The condition `if (a) return b else f(x, 1)`. -/
def eitherWay : Program :=
  ⟨none, [.cond 0 (.name 0 "a") (.ret 0 (.name 0 "b"))
    (some (.expr (.call 0 (.name 0 "f") [.name 0 "x", .literal 0 (.int 1)])))]⟩

/-- The tokens of the condition, with a space and a comment in between. -/
def eitherWayTokens : List Token :=
  [.spelled .identifier "if" 0, .blank " " 2, .spelled .openParen "(" 3, .spelled .identifier "a" 4,
   .spelled .closeParen ")" 5, .spelled .identifier "return" 6, .blank " " 12,
   .spelled .identifier "b" 13, .comment "/**/" 14,
   .spelled .identifier "else" 18, .blank " " 22, .spelled .identifier "f" 23,
   .spelled .openParen "(" 24, .spelled .identifier "x" 25, .spelled .comma "," 26,
   .unnamed .number "1" 27 (.int 1) rfl, .spelled .closeParen ")" 28]

theorem ofTokensWithin_render_eitherWay :
    eitherWay.isClear = true ∧ (significant eitherWayTokens).map Token.lexeme = eitherWay.render ∧
      ∃ q : Program, q.unplaced = eitherWay.unplaced ∧
        Program.ofTokensWithin .remembering (ampleFor eitherWayTokens) eitherWayTokens = .ok q := by
  have hclear : eitherWay.isClear = true := by decide
  have hrender : (significant eitherWayTokens).map Token.lexeme = eitherWay.render := rfl
  obtain ⟨q, hsame, hq⟩ := ofTokensWithin_render eitherWay eitherWayTokens hclear hrender
  exact ⟨hclear, hrender, q, hsame, (hq .remembering _).1 (Nat.le_refl _)⟩

end Grammar

end Klex
