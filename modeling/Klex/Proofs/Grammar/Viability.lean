import Klex.Proofs.Grammar.Completion
import Klex.Proofs.Grammar.Soundness

/-!
# Refusals do not come too early

What stands before the token that a row is refused at is the beginning of a program.

* **`completes_expressionFrom`**, **`completes_statementFrom`** — runs of one level of the grammar can be
  completed, if those of the rules that it goes through can.
* **`completes_rules`** — so can the rules with any room, in front of a closing bracket or the end.
* **`take_viable`** — **the tokens before the index that a row is refused at can be completed.**
* **`ofTokensWithin_viable`** — the same for rows with layout.

The furthest index is the place where the run on the tokens before it looks behind their end.
-/

namespace Klex.Grammar

open Rule

/-- A token to put behind the end of a row. -/
def spare (kind : Kind) (text : String) : Token := .spelled kind text 0

/-- A literal to put behind the end of a row. -/
def spareNull : Token := .unnamed .null "null" 0 .null rfl

section

variable {row : List Token} {F : List Token → Prop}

/-! ### In front of a closing bracket -/

theorem Closing.kind_ne {u : List Token} (h : Closing u) {kind : Kind} (hp : kind ≠ .closeParen)
    (hc : kind ≠ .closeCurly) : ∀ x xs, u = x :: xs → x.kind ≠ kind := by
  intro x xs hx hk
  rcases h x xs hx with h | h
  · exact hp (hk.symm.trans h)
  · exact hc (hk.symm.trans h)

theorem Closing.cons {x : Token} (h : x.kind = .closeParen ∨ x.kind = .closeCurly)
    (u : List Token) : Closing (x :: u) := by
  intro y ys hy
  obtain ⟨rfl, -⟩ := by simpa using hy
  exact h

theorem Closing.rejects_statement {c : Cursor} {calls : Nat} (h : Closing c.rest) :
    Rejects ((endless tight).statement calls) c := by
  refine Grammar.rejects_statement fun x xs hx => ?_
  rcases h x xs hx with h | h <;> rw [h] <;> rfl

theorem Closing.rejects_token {c : Cursor} (h : Closing c.rest) {kind : Kind}
    (hp : kind ≠ .closeParen) (hc : kind ≠ .closeCurly) : Rejects (token kind) c :=
  Rejects.token (h.kind_ne hp hc)

/-- After a basic expression nothing more is needed. -/
theorem accepts_after (left : Expr) {c : Cursor} (h : Closing c.rest) :
    Accepts (binaryRest tight (endless tight) left <|> callRest tight (endless tight) left
      <|> pure left) c left c := by
  refine (rejects_binaryRest left (h.kind_ne (by decide) (by decide))).orElse_accepts ?_
  exact (rejects_callRest left (h.kind_ne (by decide) (by decide))).orElse_accepts (.pure left)

/-- A literal is an expression. -/
theorem starts_expression (calls : Nat) :
    Starts Closing Anything ((endless tight).expression calls) := by
  rw [endless_expression passes_tight]
  refine ⟨[spareNull], .literal 0 .null, fun u hu => ⟨trivial, fun i => ?_⟩⟩
  have hbang : Rejects (negation tight (endless tight)) ⟨i, [spareNull] ++ u⟩ := by
    exact (Rejects.token_cons rfl (by decide)).bind
  have hatom : Accepts (basic tight (endless tight)) ⟨i, [spareNull] ++ u⟩ (.literal 0 .null)
      ⟨i + 1, u⟩ := Accepts.orElse (.read rfl rfl)
  exact hbang.orElse_accepts (hatom.bind (accepts_after _ hu))

/-- What follows an opening curly bracket can be the closing one. -/
theorem starts_body : Starts F Anything (do
    let body ← placed ((endless tight).statement 4)
    let _ ← token .closeCurly
    return Stmt.block body.1 body.2) := by
  refine ⟨[spare .closeCurly "\x7d"], .block (some 0) [], fun u _ => ⟨trivial, fun i => ?_⟩⟩
  have hclosing := Closing.cons (x := spare .closeCurly "\x7d") (.inr rfl) u
  have hnone : Accepts (many ((endless tight).statement 4)) ⟨i, spare .closeCurly "\x7d" :: u⟩ [] _ :=
    .many_nil hclosing.rejects_statement
  refine hnone.placed.bind ?_
  exact (Accepts.token (x := spare .closeCurly "\x7d") rfl rfl).bind (.pure _)

/-- An empty block is a statement. -/
theorem starts_statement (calls : Nat) :
    Starts F Anything ((endless tight).statement calls) := by
  rw [endless_bareStatement]
  obtain ⟨w, a, hw⟩ : Starts F Anything (block tight (endless tight)) := by
    rw [block_tight]
    exact Starts.bind (.token (x := spare .openCurly "\x7b") rfl fun _ => trivial) fun _ => starts_body
  exact ⟨w, a, fun u hu => ⟨trivial, fun i => ((hw u hu).2 i).orElse⟩⟩

/-! ### One level of the grammar -/

theorem ready_token (kind : Kind) (text : String) :
    Ready row F Anything (token kind) (token kind) :=
  .token (x := spare kind text) rfl fun _ => trivial

theorem ready_keyword (text : String) : Ready row F Anything (keyword text) (keyword text) :=
  .keyword (x := spare .identifier text) ⟨rfl, rfl⟩ fun _ => trivial

theorem ready_close (kind : Kind) (text : String) (h : kind = .closeParen ∨ kind = .closeCurly) :
    Ready row F Closing (token kind) (token kind) :=
  .token (x := spare kind text) rfl (Closing.cons h)

theorem ready_commaList {α : Type} (hrow : 0 < row.length) {D : α → List Token → Prop}
    {p q : Rule α} (hp : Steady row 1 p) (hq : Reads q D) (h : Ready row Closing Anything p q)
    (trailing : Bool) :
    Ready row Anything Anything (commaList tight p trailing) (commaList tight q trailing) := by
  rw [commaList_tight, commaList_tight]
  have hcomma : Ready row Closing Anything (do let _ ← token .comma; p)
      (do let _ ← token .comma; q) :=
    (ready_token .comma ",").bind fun _ => h
  have hnone : ∀ {c : Cursor}, Closing c.rest → Rejects (do let _ ← token .comma; q) c :=
    fun hc => (hc.rejects_token (by decide) (by decide)).bind
  have hmore : Ready row Closing Closing (many (do let _ ← token .comma; p))
      (many (do let _ ← token .comma; q)) := by
    refine ⟨hcomma.completes.many hrow ((Steady.token .comma).bind_right fun _ => hp)
      hq.afterComma AfterComma.ne_nil hnone, [], [], fun u hu => ⟨hu, fun i => ?_⟩⟩
    exact .many_nil (hnone hu)
  have hclose : ∀ items : List α, Ready row Anything Closing
      (do let _ ← token .closeParen; return items) (do let _ ← token .closeParen; return items) :=
    fun items => (ready_close .closeParen ")" (.inl rfl)).bind
      fun _ => .pure (G := Anything) hrow items fun _ => trivial
  refine h.optional.bind fun first => hmore.bind fun more => ?_
  cases trailing with
  | false => exact hclose _
  | true =>
    refine Ready.bind ⟨Completes.optional (.token (x := spare .comma ",") rfl), [], none,
      fun u hu => ⟨hu, fun i => ?_⟩⟩ fun _ => hclose _
    exact (Closing.rejects_token (c := ⟨i, u⟩) hu (by decide) (by decide)).optional

section

variable {r : Rules}

/-- The rules are ready for what comes up in front of a closing bracket, as long as the rules that they go
through are. -/
abbrev Rules.Ready (row : List Token) (r : Rules) : Prop :=
  r.Rel (Grammar.Ready row Closing Anything) (Grammar.Ready row Closing Anything) (endless tight)

theorem ready_basic (hrow : 0 < row.length) (h : r.Ready row) :
    Ready row Anything Anything (basic tight r) (basic tight (endless tight)) := by
  have hgroup : Ready row Anything Anything (group tight r) (group tight (endless tight)) := by
    rw [group_tight, group_tight]
    exact (ready_token .openParen "(").bind fun _ =>
      (h.expression 6).bind fun _ =>
        (ready_close .closeParen ")" (.inl rfl)).bind fun _ =>
          .pure (G := Anything) hrow _ fun _ => trivial
  exact Ready.orElse (.read (x := spareNull) rfl fun _ => trivial) hgroup.completes

theorem ready_callRest (hrow : 0 < row.length)
    (hsteady : ∀ calls, Steady row 1 (r.expression calls)) (h : r.Ready row) (callee : Expr) :
    Ready row Closing Anything (callRest tight r callee) (callRest tight (endless tight) callee) := by
  rw [callRest_tight, callRest_tight]
  refine (ready_token .openParen "(").bind (H := Anything) fun _ => ?_
  split
  · have hparam : Ready row Closing Anything parameter parameter :=
      .read (x := spare .identifier "x") rfl fun _ => trivial
    exact (ready_commaList hrow steady_parameter reads_parameter hparam true).bind fun _ =>
      (h.statement 3).bind fun _ => .pure hrow _ id
  · exact (ready_commaList hrow (hsteady 4) (reads_endless.expression 4) (h.expression 4) false).bind
      fun _ => .pure hrow _ fun _ => trivial

theorem completes_expressionFrom (hrow : 0 < row.length)
    (hsteady : ∀ calls, Steady row 1 (r.expression calls)) (h : r.Ready row) (calls : Nat) :
    Completes row Closing (expressionFrom tight r (basic tight r))
      ((endless tight).expression calls) := by
  rw [endless_expression passes_tight]
  have hnegation : Ready row Closing Anything (negation tight r) (negation tight (endless tight)) := by
    rw [negation_tight, negation_tight]
    exact (ready_token .negate "!").bind fun _ => (h.expression 2).bind fun _ => .pure hrow _ id
  have hbinary : ∀ left, Ready row Closing Anything (binaryRest tight r left)
      (binaryRest tight (endless tight) left) := by
    intro left
    rw [binaryRest_tight, binaryRest_tight]
    exact (ready_token .operator "+").bind fun _ => (h.expression 2).bind fun _ => .pure hrow _ id
  refine hnegation.completes.orElse ((ready_basic hrow h).completes.bind (fun left => ?_)
    fun left => ⟨[], left, fun u hu => ⟨trivial, fun i => accepts_after left hu⟩⟩)
  exact (hbinary left).completes.orElse
    ((ready_callRest hrow hsteady h left).completes.orElse (.pure hrow left))

theorem ready_block (hrow : 0 < row.length) (hsteady : ∀ calls, Steady row 1 (r.statement calls))
    (h : r.Ready row) : Ready row F Anything (block tight r) (block tight (endless tight)) := by
  rw [block_tight, block_tight]
  have hclose : ∀ body : Option Nat × List Stmt, Ready row F Closing
      (do let _ ← token .closeCurly; return Stmt.block body.1 body.2)
      (do let _ ← token .closeCurly; return Stmt.block body.1 body.2) := fun body =>
    (ready_close .closeCurly "\x7d" (.inr rfl)).bind fun _ =>
      .pure (G := Anything) hrow _ fun _ => trivial
  refine (ready_token .openCurly "\x7b").bind fun _ =>
    ⟨Completes.bind ?_ (fun body => (hclose body).completes) fun body => (hclose body).starts,
      starts_body⟩
  exact (h.statement 4).completes.placed hrow (hsteady 4) (reads_endless.statement 4)
    Stmt.Yields.ne_nil Closing.rejects_statement

/-- In front of a closing bracket there is no second branch; where the end is looked behind, there
is one. -/
theorem ready_elseBranch (hrow : 0 < row.length) (h : r.Ready row) :
    Ready row Closing Closing (elseBranch tight r) (elseBranch tight (endless tight)) := by
  rw [elseBranch_tight, elseBranch_tight]
  have hword : Completes row Anything (keyword "else") (keyword "else") :=
    .read (x := spare .identifier "else") rfl
  have hsome : Ready row Closing Anything (do return some (← r.statement 2))
      (do return some (← (endless tight).statement 2)) :=
    (h.statement 2).bind fun _ => .pure hrow _ id
  refine ⟨hword.optional.bind (fun found => ?_) fun found => ?_, [], none,
    fun u hu => ⟨hu, fun i => ?_⟩⟩
  · cases found with
    | none => exact .pure hrow none
    | some _ => exact hsome.completes
  · cases found with
    | none => exact .pure none fun _ => trivial
    | some _ => exact hsome.starts
  · have hnot : Rejects (keyword "else") ⟨i, u⟩ := Rejects.keyword fun x xs hx hw =>
      hu.kind_ne (by decide) (by decide) x xs hx hw.1
    exact hnot.optional.bind (.pure none)

theorem completes_statementFrom (hrow : 0 < row.length)
    (hsteady : ∀ calls, Steady row 1 (r.statement calls)) (h : r.Ready row) (calls : Nat) :
    Completes row Closing (statementFrom tight r) ((endless tight).statement calls) := by
  rw [statementFrom_tight, endless_bareStatement]
  have hcondition : Ready row Closing Anything (condition tight r)
      (condition tight (endless tight)) := by
    rw [condition_tight, condition_tight]
    exact (ready_keyword "if").bind fun _ =>
      (ready_token .openParen "(").bind fun _ =>
      (h.expression 2).bind fun _ =>
      (ready_close .closeParen ")" (.inl rfl)).bind fun _ =>
      (h.statement 2).bind fun _ => (ready_elseBranch hrow h).bind fun _ => .pure hrow _ id
  have hreturning : Ready row Closing Anything (returning tight r)
      (returning tight (endless tight)) := by
    rw [returning_tight, returning_tight]
    exact (ready_keyword "return").bind fun _ => (h.expression 2).bind fun _ => .pure hrow _ id
  have hassignment : Ready row Closing Anything (assignment tight r)
      (assignment tight (endless tight)) := by
    rw [assignment_tight, assignment_tight]
    exact (ready_token .identifier "x").bind fun _ => (ready_token .assign "=").bind fun _ =>
      (h.expression 2).bind fun _ => .pure hrow _ id
  have hexpr : Ready row Closing Anything (do return Stmt.expr (← r.expression 1))
      (do return Stmt.expr (← (endless tight).expression 1)) :=
    (h.expression 1).bind fun _ => .pure hrow _ id
  exact (ready_block hrow hsteady h).completes.orElse <| hcondition.completes.orElse <|
    hreturning.completes.orElse <| hassignment.completes.orElse hexpr.completes

end

/-! ### All levels -/

/-- **Runs of the rules can be completed with any room**, in front of a closing bracket or the end. -/
theorem completes_rules (hrow : 0 < row.length) (room : Nat) :
    (rules tight .plain room).Rel (Completes row Closing) (Completes row Closing)
      (endless tight) := by
  induction room with
  | zero =>
    obtain ⟨hue, hus⟩ := uniform_endless passes_tight
    exact ⟨fun calls => .tooDeep hrow (hue calls), fun calls => .tooDeep hrow (hus calls)⟩
  | succ room ih =>
    obtain ⟨hse, hss⟩ := steady_rules (passes_tight.steady row) .plain room
    have h : (rules tight .plain room).Ready row :=
      ⟨fun calls => ⟨ih.expression calls, starts_expression calls⟩,
        fun calls => ⟨ih.statement calls, starts_statement calls⟩⟩
    -- one call further away, the unlimited rules are the same
    refine ⟨fun calls => ?_, fun calls => ?_⟩
    · cases calls with
      | zero => exact completes_expressionFrom hrow hse h 0
      | succ calls => exact ih.expression calls
    · cases calls with
      | zero => exact completes_statementFrom hrow hss h 0
      | succ calls => exact ih.statement calls

theorem completes_text (hrow : 0 < row.length) (room : Nat) :
    Completes row Closing (text tight (rules tight .plain room)) (text tight (endless tight)) := by
  rw [text_tight, text_tight]
  have hplaced := ((completes_rules hrow room).statement 2).placed hrow
    ((steady_rules (passes_tight.steady row) .plain room).statement 2) (reads_endless.statement 2)
    Stmt.Yields.ne_nil Closing.rejects_statement
  exact hplaced.bind (G := Closing) (fun _ => .pure hrow _) fun _ => .pure _ id

end

/-! ### Whole texts -/

/-- A text is read up to a token that no statement begins with. -/
theorem text_looks {r : Rules} {row : List Token} {p : Program} {e : Cursor} {v : Trail}
    (hs : Steady row 1 (r.statement 2)) (h : text tight r (.start row) .empty = (.accept p e, v)) :
    e.index ≤ v.furthest := by
  rw [text_tight] at h
  obtain ⟨body, e₁, v₁, hplaced, h⟩ := bind_accepted h
  obtain ⟨⟨-, rfl⟩, rfl⟩ := by simpa [pure_run] using h
  obtain ⟨pos, c₁, t₁, hpos, hplaced⟩ := bind_accepted hplaced
  obtain ⟨⟨-, rfl⟩, rfl⟩ := by simpa [Rule.pos?] using hpos
  obtain ⟨items, e₂, v₂, hmany, hplaced⟩ := bind_accepted hplaced
  obtain ⟨⟨-, rfl⟩, rfl⟩ := by simpa [pure_run] using hplaced
  exact (many_looks hs (Cursor.start_in row) (Trail.sane_empty row) hmany).2

/-- A run that does not look behind the end of its row is stuck in it, however the row goes on. -/
theorem unlimited_append {row : List Token} {reply : Reply Program} {m : Nat}
    (hrow : 0 < row.length) (hm : m < row.length)
    (hrun : Runs (text tight (rules tight .plain (ample (.start row)))) (.start row) reply m)
    (s : List Token) :
    ∃ index < row.length, unlimited tight (row ++ s) = .error (.stuckAt index) := by
  have hfollows := (completes_text hrow (ample (.start row))).follows s
  have hcd := Beside.start row (row ++ s) row.length
  have htu := Trail.Beside.empty row (row ++ s) row.length
  have hsane := Trail.sane_empty row
  have hfar : (Trail.empty.note m).furthest = m := by simp
  rcases reply with ⟨p, e⟩ | _ | _
  · have hend := text_looks ((steady_rules (passes_tight.steady row) .plain _).statement 2)
      (hrun .empty)
    obtain ⟨e', v, hq, hee, hvv⟩ :=
      hfollows.accept hcd hsane htu (hrun .empty) (by omega) (by omega)
    have hrest : e'.rest ≠ [] := by
      have hindex := hee.index
      refine hee.right.rest_ne_nil ?_
      rw [List.length_append]
      omega
    refine ⟨max m e.index, by omega, ?_⟩
    rw [unlimited, hq, verdict_accept hrest, ← hvv.furthest, ← hee.index, hfar]
  · obtain ⟨v, hq, hvv⟩ := hfollows.reject hcd hsane htu (hrun .empty) (by omega)
    refine ⟨m, hm, ?_⟩
    rw [unlimited, hq, verdict, ← hvv.furthest, hfar]
  · -- the room is ample, so the run does not give up
    refine absurd ?_ (run_not_gaveUp passes_tight .plain (Nat.le_refl (ample (.start row))))
    exact ⟨_, congrArg verdict (hrun .empty)⟩

/-- A row is refused at one of its tokens or at its end. -/
theorem stuckAt_le {row : List Token} {index : Nat}
    (h : unlimited tight row = .error (.stuckAt index)) : index ≤ row.length := by
  have hsteady := steady_text (passes_tight.steady row) (steady_endless passes_tight row).statement
  have hstart := Cursor.start_in row
  have hsane := Trail.sane_empty row
  rcases verdict_stuckAt h with ⟨p, e, v, htext, -, rfl⟩ | ⟨v, htext, rfl⟩
  · obtain ⟨hv, -, -, he⟩ := hsteady.accepted hstart hsane htext
    exact Nat.max_le.2 ⟨hv.bound, he.bound⟩
  · exact (hsteady.rejected hstart hsane htext).1.bound

/-- **The tokens before the index that a row is refused at can be completed to a program.** -/
theorem take_viable {row : List Token} {index : Nat}
    (h : unlimited tight row = .error (.stuckAt index)) :
    ∃ w p, unlimited tight (row.take index ++ w) = .ok p := by
  have hlength : (row.take index).length = index := by
    rw [List.length_take, Nat.min_eq_left (stuckAt_le h)]
  rcases Nat.eq_zero_or_pos index with rfl | hindex
  · exact ⟨[], ⟨none, []⟩, rfl⟩
  · have hrow : 0 < (row.take index).length := by rwa [hlength]
    have hcompletes := completes_text hrow (ample (.start (row.take index)))
    obtain ⟨reply, m, hrun⟩ := hcompletes.left (.start (row.take index))
    rcases Nat.lt_or_ge m (row.take index).length with hlt | hge
    · -- otherwise the row itself would be refused earlier
      obtain ⟨k, hk, hstuck⟩ := unlimited_append hrow hlt hrun (row.drop index)
      rw [List.take_append_drop, h] at hstuck
      obtain rfl : index = k := by simpa using hstuck
      omega
    · obtain ⟨w, p, -, hw⟩ := hcompletes.complete (Cursor.start_in _) hrun hge
      have haccepts := hw [] (fun x xs hx => by simp at hx)
      rw [List.append_nil] at haccepts
      exact ⟨w, p, unlimited_of_accepts haccepts⟩

/-- **A refusal does not come too early**: what stands before the place of the refusal, or the whole
row if it is refused at its end, can be completed to a row that is a program with any room that
suffices, in either way of reading. -/
theorem ofTokensWithin_viable (reading : Reading) (room : Nat) (tokens : List Token)
    (failure : Failure) (h : Program.ofTokensWithin reading room tokens = .error failure)
    (hdeep : failure.cause ≠ .nestedTooDeeply) :
    ∃ k ≤ tokens.length, RefusedAt reading room tokens k ∧ failure = failureAt tokens k ∧
      ∃ w p, ∀ (reading' : Reading) (room' : Nat),
        (ampleFor (tokens.take k ++ w) ≤ room' →
          Program.ofTokensWithin reading' room' (tokens.take k ++ w) = .ok p) ∧
        (Program.ofTokensWithin reading' room' (tokens.take k ++ w) = .ok p ∨
          TooDeep (tokens.take k ++ w)
            (Program.ofTokensWithin reading' room' (tokens.take k ++ w))) := by
  obtain ⟨k, hrefused, hfailure⟩ := refusedAt_of_error h hdeep
  refine ⟨k, hrefused.failure.1, hrefused, hfailure, ?_⟩
  obtain ⟨index, hrun, rfl⟩ := refusedAt_iff.1 hrefused
  have hstuck : unlimited tight (significant tokens) = .error (.stuckAt index) := by
    rcases run_eq_or passes_tight reading room (significant tokens) with ⟨_, hgiven⟩ | heq
    · rw [hgiven] at hrun
      simp at hrun
    · rw [← heq, hrun]
  obtain ⟨w, p, hw⟩ := take_viable hstuck
  refine ⟨w, p, ofTokensWithin_of_unlimited ?_⟩
  have hknown : Known w := fun t ht => (unlimited_yields hw).known t (List.mem_append_right _ ht)
  rw [significant_append, significant_take_place, significant_of_known hknown, hw]

/-- The row `x = f(a,`, which is refused at its end. -/
def openCall : List Token :=
  [.spelled .identifier "x" 0, .spelled .assign "=" 2, .blank " " 3, .spelled .identifier "f" 4,
   .spelled .openParen "(" 5, .spelled .identifier "a" 6, .spelled .comma "," 7]

/-- Something can follow `x = f(a,`. -/
theorem ofTokensWithin_viable_openCall :
    Program.ofTokens callLimit openCall = .error ⟨.unexpectedEnd, some 8⟩ ∧
      ∃ k w p, failureAt openCall k = ⟨.unexpectedEnd, some 8⟩ ∧
        Program.ofTokensWithin .remembering (ampleFor (openCall.take k ++ w))
          (openCall.take k ++ w) = .ok p := by
  have h : Program.ofTokens callLimit openCall = .error ⟨.unexpectedEnd, some 8⟩ := rfl
  obtain ⟨k, -, -, hfailure, w, p, hw⟩ := ofTokensWithin_viable .plain callLimit openCall _ h
    (by simp)
  exact ⟨h, k, w, p, hfailure.symm, (hw .remembering _).1 (Nat.le_refl _)⟩

end Klex.Grammar
