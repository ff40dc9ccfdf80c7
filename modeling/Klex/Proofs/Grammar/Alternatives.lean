import Klex.Proofs.Grammar.Outcome

/-!
# Alternatives that start alike

Three of the alternatives of an expression start with a basic expression.  The rules read it once and then
look at what follows.  One can also try the alternatives in turn, each from the start, and that is where
remembered basic expressions are looked up most.

* **`expressionInTurn`** — an expression whose alternatives are tried in turn; **`rulesInTurn`**,
  **`runInTurn`**, **`Program.ofTokensInTurn`** — the grammar with such expressions.
* **`Uniform.bind_orElse`** — **alternatives that start alike may share their start**, where that start does
  not look at the trail: reading it once more notes nothing new.
* **`rulesInTurn_plain`** — so the rules that read afresh each time are the rules of the grammar.
* **`recalls_rulesInTurn`** — and the rules that look up what they have read come to the same.
* **`memory_unseen`** — **whether basic expressions are remembered cannot be seen**, neither in the program
  nor in where a row of tokens is refused.
-/

namespace Klex

namespace Grammar

open Rule

/-! ### Alternatives in turn -/

/-- An expression, given the rule for basic ones.  Each alternative reads its own basic expression. -/
def expressionInTurn (gap : Rule Unit) (r : Rules) (basic : Rule Expr) : Rule Expr :=
  negation gap r <|> (basic >>= binaryRest gap r) <|> (basic >>= callRest gap r) <|> basic

/-- Rules that nest at most `room` calls. -/
def rulesInTurn (gap : Rule Unit) (reading : Reading) : Nat → Rules
  | 0 => ⟨fun _ => tooDeep, fun _ => tooDeep⟩
  | room + 1 =>
    let r := rulesInTurn gap reading room
    r.push (expressionInTurn gap r (reading.basic gap r)) (statementFrom gap r)

/-- The program that a row of tokens is, where the rules may nest `room` calls. -/
def runInTurn (gap : Rule Unit) (reading : Reading) (room : Nat) (row : List Token) :
    Except Refusal Program :=
  verdict (text gap (rulesInTurn gap reading room) (.start row) .empty)

end Grammar

open Grammar

/-- The program that a row of tokens is, in a way of reading and with room for so many nested calls of
rules. -/
def Program.ofTokensInTurn (reading : Reading) (room : Nat) (tokens : List Token) :
    Except Failure Program :=
  match runInTurn Rule.skip reading room tokens with
  | .ok p => .ok p
  | .error refusal => .error (refusal.toFailure tokens)

namespace Grammar

open Rule

/-! ### Sharing a start -/

/-- A note of an index that is noted already changes nothing. -/
theorem Trail.note_of_le {t : Trail} {m : Nat} (h : m ≤ t.furthest) : t.note m = t := by
  cases t
  simp only [Trail.note, Trail.mk.injEq, and_true]
  exact Nat.max_eq_left h

/-- **Alternatives that start alike may share their start.**  The second alternative finds the notes of its
start on the trail. -/
theorem Uniform.bind_orElse {α β : Type} {p : Rule α} {f : α → Rule β} (hp : Uniform p)
    (hf : ∀ a, Uniform (f a)) (g : α → Rule β) :
    ((p >>= f) <|> (p >>= g)) = p >>= fun a => f a <|> g a := by
  funext c t
  obtain ⟨⟨a, d⟩ | _ | _, m, hrun⟩ := hp c
  · obtain ⟨reply, k, hnext⟩ := hf a d
    have hfirst : (p >>= f) c t = (reply, (t.note m).note k) := by
      rw [Rule.bind_accept (hrun t), hnext]
    have hagain : ((t.note m).note k).note m = (t.note m).note k :=
      Trail.note_of_le (Nat.le_trans (Nat.le_max_right _ _) (Nat.le_max_left _ _))
    rw [Rule.bind_accept (hrun t)]
    rcases reply with ⟨b, e⟩ | _ | _
    · rw [Rule.orElse_accept hfirst, Rule.orElse_accept (hnext _)]
    · have hsecond : (p >>= g) c ((t.note m).note k) = g a d ((t.note m).note k) := by
        rw [Rule.bind_accept (hrun _), hagain]
      rw [Rule.orElse_reject hfirst, Rule.orElse_reject (hnext _), hsecond]
    · rw [Rule.orElse_tooDeep hfirst, Rule.orElse_tooDeep (hnext _)]
  · have hagain : (t.note m).note m = t.note m := Trail.note_of_le (Nat.le_max_right _ _)
    rw [Rule.orElse_reject (Rule.bind_reject (hrun t)), Rule.bind_reject (hrun _),
      Rule.bind_reject (hrun t), hagain]
  · rw [Rule.orElse_tooDeep (Rule.bind_tooDeep (hrun t)), Rule.bind_tooDeep (hrun t)]

variable {gap : Rule Unit}

/-- Expressions tried in turn are expressions, if no rule looks at the trail. -/
theorem expressionInTurn_eq (hg : Passes gap) {r : Rules} (hr : r.All Uniform Uniform)
    (hse : ∀ calls, Steady [] 1 (r.expression calls)) {b : Rule Expr} (hb : Uniform b) :
    expressionInTurn gap r b = expressionFrom gap r b := by
  have hR := uniform_congruence []
  have hrel : r.Rel (fun p _ => Uniform p) (fun p _ => Uniform p) r := ⟨hr.expression, hr.statement⟩
  have hcall := hb.bind_orElse
    (@Congruence.callRest _ _ gap gap r r hR (hg.steady []) hg.uniform hse hrel) pure
  have hbinary := hb.bind_orElse
    (@Congruence.binaryRest _ _ gap gap r r hR hg.uniform hr.expression)
    fun left => callRest gap r left <|> pure left
  rw [bind_pure] at hcall
  rw [expressionInTurn, hcall, hbinary]
  rfl

/-- **Rules that read afresh each time are the rules of the grammar.** -/
theorem rulesInTurn_plain (hg : Passes gap) (room : Nat) :
    rulesInTurn gap .plain room = rules gap .plain room := by
  induction room with
  | zero => rfl
  | succ room ih =>
    have hr := uniform_rules hg room
    have hb : Uniform (basic gap (rules gap .plain room)) :=
      @Congruence.basic _ _ gap gap _ (rules gap .plain room) (uniform_congruence []) hg.uniform
        hr.expression
    have hexpression := expressionInTurn_eq hg hr (steady_rules (hg.steady []) .plain room).expression hb
    rw [rulesInTurn, ih]
    exact congrArg
      (fun e => (rules gap .plain room).push e (statementFrom gap (rules gap .plain room))) hexpression

/-! ### Looking up -/

section

variable {row : List Token} {r s : Rules}

theorem steady_expressionInTurn (hg : Steady row 0 gap) {b : Rule Expr}
    (hr : r.All (Steady row 1) (Steady row 1)) (hb : Steady row 1 b) :
    Steady row 1 (expressionInTurn gap r b) :=
  (steady_negation hg hr.expression).orElse <|
    (hb.bind_left (steady_binaryRest hg hr.expression)).orElse <|
      (hb.bind_left (steady_callRest hg hr.expression hr.statement)).orElse hb

theorem steady_rulesInTurn (hg : Steady row 0 gap) (reading : Reading) (room : Nat) :
    (rulesInTurn gap reading room).All (Steady row 1) (Steady row 1) := by
  induction room with
  | zero => exact ⟨fun _ => Steady.tooDeep, fun _ => Steady.tooDeep⟩
  | succ room ih =>
    exact ih.push (steady_expressionInTurn hg ih (steady_reading_basic reading hg ih.expression))
      (steady_statementFrom hg ih.expression ih.statement)

theorem Congruence.expressionInTurn {R : {α : Type} → Rule α → Rule α → Prop}
    (hR : Congruence row R) (hsg : Steady row 0 gap) (hg : R gap gap) {p q : Rule Expr}
    (hsteady : ∀ calls, Steady row 1 (r.expression calls)) (h : r.Rel R R s) (hb : R p q) :
    R (Grammar.expressionInTurn gap r p) (Grammar.expressionInTurn gap s q) :=
  hR.orElse (hR.negation hg h.expression) <|
    hR.orElse (hR.bind hb (hR.binaryRest hg h.expression)) <|
      hR.orElse (hR.bind hb (hR.callRest hsg hg hsteady h)) hb

end

/-- Rules with less room refine rules with more. -/
theorem refines_rulesInTurn (hg : Passes gap) (reading : Reading) {d e : Nat} (hde : d ≤ e) :
    (rulesInTurn gap reading d).Rel Refines Refines (rulesInTurn gap reading e) := by
  induction d generalizing e with
  | zero => exact ⟨fun _ => Refines.tooDeep _, fun _ => Refines.tooDeep _⟩
  | succ d ih =>
    obtain ⟨e, rfl⟩ : ∃ e', e = e' + 1 := ⟨e - 1, by omega⟩
    have hrel := ih (Nat.le_of_succ_le_succ hde)
    obtain ⟨hse, hss⟩ := steady_rulesInTurn (hg.steady []) reading d
    have hR := refines_congruence []
    have hb := hR.reading_basic reading (fun _ _ _ _ h => h.remembered) (hg.steady []) (.refl gap)
      hse hrel.expression
    exact hrel.push (hR.expressionInTurn (hg.steady []) (.refl gap) hse hrel hb)
      (hR.statementFrom (.refl gap) hss hrel)

/-- **Rules that look up what they have read recall the rules that read afresh**, however often an
alternative that was given up has left something to look up. -/
theorem recalls_rulesInTurn (hg : Passes gap) (row : List Token) (room : Nat) :
    (rulesInTurn gap .remembering room).Rel (Recalls gap row) (Recalls gap row)
      (rulesInTurn gap .plain room) := by
  induction room with
  | zero =>
    exact ⟨fun _ => .refl (fun _ => ⟨_, _, .tooDeep⟩) Steady.tooDeep,
      fun _ => .refl (fun _ => ⟨_, _, .tooDeep⟩) Steady.tooDeep⟩
  | succ room ih =>
    obtain ⟨hse, hss⟩ := steady_rulesInTurn (hg.steady row) .remembering room
    have hR := recalls_congruence gap row
    have hgap : Recalls gap row gap gap := .refl hg.uniform (hg.steady row)
    have hbasic : Refines (basic gap (rulesInTurn gap .plain room)) (basic gap (endless gap)) := by
      rw [rulesInTurn_plain hg]
      exact (refines_congruence row).basic (.refl gap) (refines_endless hg room).expression
    exact ih.push
      (hR.expressionInTurn (hg.steady row) hgap hse ih
        ((hR.basic hgap ih.expression).remembered hbasic))
      (hR.statementFrom hgap hss ih)

/-! ### Whole texts -/

/-- Two runs come to the same reply and have the same furthest index, and do not give up. -/
def SameRun {α : Type} (a b : Reply α × Trail) : Prop :=
  a.1 = b.1 ∧ a.2.furthest = b.2.furthest ∧ b.1 ≠ .tooDeep

theorem SameRun.verdict_eq {a b : Reply Program × Trail} (h : SameRun a b) : verdict a = verdict b :=
  verdict_congr h.1 h.2.1

theorem runInTurn_plain (hg : Passes gap) (room : Nat) (row : List Token) :
    runInTurn gap .plain room row = run gap .plain room row := by
  rw [runInTurn, rulesInTurn_plain hg, run, program]

/-- With room enough, both ways of reading run alike. -/
theorem sameRun_of_not_gaveUp (hg : Passes gap) {row : List Token} {room : Nat}
    (h : ¬ GaveUp (run gap .plain room row)) :
    SameRun (text gap (rulesInTurn gap .remembering room) (.start row) .empty)
      (text gap (rulesInTurn gap .plain room) (.start row) .empty) := by
  rw [← runInTurn_plain hg, runInTurn, verdict_tooDeep] at h
  obtain ⟨hreply, hfurthest⟩ := recalls_text hg
    (steady_rulesInTurn (hg.steady row) .remembering room).statement (recalls_rulesInTurn hg row room) h
  exact ⟨hreply, hfurthest, h⟩

/-- With room enough a run comes to what the grammar comes to without a limit. -/
theorem runInTurn_eq_unlimited (hg : Passes gap) (reading : Reading) {room : Nat} {row : List Token}
    (h : ¬ GaveUp (run gap .plain room row)) :
    runInTurn gap reading room row = unlimited gap row := by
  have hplain : runInTurn gap .plain room row = unlimited gap row := by
    rw [runInTurn_plain hg]
    exact (run_plain_eq_or hg room row).resolve_left h
  cases reading with
  | plain => exact hplain
  | remembering => rw [← hplain, runInTurn, runInTurn, (sameRun_of_not_gaveUp hg h).verdict_eq]

/-- With any room a run gives up or comes to that. -/
theorem runInTurn_eq_or (hg : Passes gap) (reading : Reading) (room : Nat) (row : List Token) :
    GaveUp (runInTurn gap reading room row) ∨ runInTurn gap reading room row = unlimited gap row := by
  rw [← runInTurn_eq_unlimited hg reading
    (run_not_gaveUp hg .plain (Nat.le_max_right room (ample (.start row))))]
  exact verdict_of_refines (steady_rulesInTurn (hg.steady []) reading room).statement
    (refines_rulesInTurn hg reading (Nat.le_max_left room (ample (.start row)))) row

theorem tooDeep_of_gaveUp_inTurn {reading : Reading} {room : Nat} {tokens : List Token}
    (h : GaveUp (runInTurn skip reading room tokens)) :
    TooDeep tokens (Program.ofTokensInTurn reading room tokens) := by
  obtain ⟨k, hk, hrun⟩ := tooDeep_le passes_skip
    (steady_rulesInTurn (passes_skip.steady tokens) reading room).statement h
  refine ⟨k, hk, ?_⟩
  rw [Program.ofTokensInTurn, runInTurn, hrun]
  rfl

/-- Runs that come to the same make the same program or fail in the same way. -/
theorem ofTokensInTurn_of_run {reading : Reading} {room room' : Nat} {tokens : List Token}
    (h : runInTurn skip reading room tokens = run skip .plain room' tokens) :
    Program.ofTokensInTurn reading room tokens = Program.ofTokensWithin .plain room' tokens := by
  cases hrun : run skip .plain room' tokens with
  | ok p => rw [Program.ofTokensInTurn, Program.ofTokensWithin, h, hrun]
  | error refusal => rw [Program.ofTokensInTurn, Program.ofTokensWithin, h, hrun]

/-- With room enough, looking up what was read before comes to what reading afresh comes to. -/
theorem ofTokensInTurn_eq (reading : Reading) {room : Nat} {tokens : List Token}
    (h : ¬ GaveUp (run skip .plain room tokens)) :
    Program.ofTokensInTurn reading room tokens = Program.ofTokensWithin .plain room tokens := by
  apply ofTokensInTurn_of_run
  rw [runInTurn_eq_unlimited passes_skip reading h, ← runInTurn_eq_unlimited passes_skip .plain h,
    runInTurn_plain passes_skip]

theorem ofTokensInTurn_eq_or (reading : Reading) (room : Nat) (tokens : List Token) :
    TooDeep tokens (Program.ofTokensInTurn reading room tokens) ∨
      Program.ofTokensInTurn reading room tokens
        = Program.ofTokensWithin .plain (ampleFor tokens) tokens := by
  have hample : runInTurn skip .plain (ampleFor tokens) tokens = unlimited skip tokens :=
    runInTurn_eq_unlimited passes_skip .plain (not_gaveUp_of_ampleFor .plain (Nat.le_refl _))
  rcases runInTurn_eq_or passes_skip reading room tokens with hdeep | heq
  · exact .inl (tooDeep_of_gaveUp_inTurn hdeep)
  · right
    apply ofTokensInTurn_of_run
    rw [heq, ← hample, runInTurn_plain passes_skip]

/-- **Remembering cannot be seen.**  Let the alternatives of an expression be tried in turn, each with a
basic expression of its own.  Read afresh each time, this is the grammar itself.  With ample room for a row
of tokens, looking up what was read before comes to the same reply with the same furthest index; so the row
is the same program with the same offsets, or fails in the same way at the same offset.  With less room,
either of the two gives up or comes to that as well. -/
theorem memory_unseen (tokens : List Token) (room : Nat) :
    Program.ofTokensInTurn .plain room tokens = Program.ofTokensWithin .plain room tokens ∧
    (ampleFor tokens ≤ room →
      SameRun (text skip (rulesInTurn skip .remembering room) (.start tokens) .empty)
        (text skip (rulesInTurn skip .plain room) (.start tokens) .empty) ∧
      Program.ofTokensInTurn .remembering room tokens = Program.ofTokensInTurn .plain room tokens) ∧
    ∀ reading, TooDeep tokens (Program.ofTokensInTurn reading room tokens) ∨
      Program.ofTokensInTurn reading room tokens
        = Program.ofTokensInTurn .plain (ampleFor tokens) tokens := by
  have hplain : ∀ room, Program.ofTokensInTurn .plain room tokens
      = Program.ofTokensWithin .plain room tokens :=
    fun room => ofTokensInTurn_of_run (runInTurn_plain passes_skip room tokens)
  refine ⟨hplain room, fun h => ?_, fun reading => ?_⟩
  · have hdeep := not_gaveUp_of_ampleFor .plain h
    refine ⟨sameRun_of_not_gaveUp passes_skip hdeep, ?_⟩
    rw [ofTokensInTurn_eq .remembering hdeep, hplain]
  · rw [hplain (ampleFor tokens)]
    exact ofTokensInTurn_eq_or reading room tokens

/-- The row `((a)(b`, where each parenthesis is tried as an operand, as a callee and on its own. -/
def openGroups : List Token :=
  [.spelled .openParen "(" 0, .spelled .openParen "(" 1, .spelled .identifier "a" 2,
   .spelled .closeParen ")" 3, .spelled .openParen "(" 4, .spelled .identifier "b" 5]

theorem memory_unseen_openGroups :
    ampleFor openGroups ≤ callLimit ∧
      Program.ofTokensInTurn .remembering callLimit openGroups
        = .error ⟨.unexpectedEnd, some 6⟩ := by
  have hroom : ampleFor openGroups ≤ callLimit := by decide
  obtain ⟨hplain, hunseen, -⟩ := memory_unseen openGroups callLimit
  refine ⟨hroom, ?_⟩
  rw [(hunseen hroom).2, hplain]
  rfl

end Grammar

end Klex
