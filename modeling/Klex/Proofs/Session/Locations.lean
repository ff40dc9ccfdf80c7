import Klex.Proofs.Evaluator.Blame
import Klex.Proofs.Evaluator.Resumption
import Klex.Proofs.Token.Modes

/-!
# Where problems are reported

A report points to an offset, and takes it for an offset of the script that was to run.

* **`pos_lt_of_parse`** — the nodes of a program stand in the text that it was read from.
* **`parse_failure_pos`** — so does what a text fails at that is no program, also where it is nested too
  deeply.
* **`Session.Parsed`** — the nodes of the programs that scripts are parsed to; **`continued_known`** — after
  scripts of a session with the builtins alone, functions are made of such nodes.
* **`problems_located`** — **a problem points into the script, or to a node of an earlier script that stands
  in a function whose call is in progress.**
* **`problem_outside`** — **the second does happen**: a script that calls a function of an earlier one can be
  reported with an offset behind its end.
* **`Failure.Names`** — what a failure says about the node that it is blamed on, word for word.
* **`failure_named`** — **in the first run of a session that node stands in the script that runs**, however
  far away the function was made that it stands in.
-/

namespace Klex

open Evaluator

/-! ### Offsets in a text -/

namespace Tiles

variable {source : String} {tokens : List Token} {t : Token}

theorem length_pos (h : Tiles source tokens) (ht : t ∈ tokens) : 0 < t.text.length := by
  rw [← String.length_toList, List.length_pos_iff]
  exact fun hnil => h.nonempty t ht (String.toList_eq_nil_iff.1 hnil)

theorem stop_le (h : Tiles source tokens) (ht : t ∈ tokens) : t.stop ≤ source.length := by
  have hlength := congrArg List.length (h.covered t ht)
  have hpos := h.length_pos ht
  rw [List.length_drop, List.length_take, String.length_toList, String.length_toList, Token.stop]
    at hlength
  rw [Token.stop]
  omega

theorem pos_lt (h : Tiles source tokens) (ht : t ∈ tokens) : t.pos < source.length := by
  have hstop := h.stop_le ht
  have hpos := h.length_pos ht
  rw [Token.stop] at hstop
  omega

theorem offsetAt_le (h : Tiles source tokens) (k : Nat) : Grammar.offsetAt tokens k ≤ source.length := by
  rw [Grammar.offsetAt]
  cases hk : tokens[k]? with
  | some t => exact Nat.le_of_lt (h.pos_lt (List.mem_of_getElem? hk))
  | none =>
    rw [Grammar.endOf]
    cases hlast : tokens.getLast? with
    | none => exact Nat.zero_le _
    | some t => exact h.stop_le (List.mem_of_getLast? hlast)

end Tiles

/-- An expression stands where one of its tokens does. -/
theorem Expr.Yields.place {e : Expr} {ts : List Token} : e.Yields ts → ∃ t ∈ ts, e.pos = t.pos
  | .literal _ | .name _ | .group _ _ _ | .negate _ _ | .function _ _ _ _ _ =>
    ⟨_, List.mem_cons_self, rfl⟩
  | .binary hleft _ _ | .call hleft _ _ _ =>
    have ⟨t, ht, hpos⟩ := hleft.place
    ⟨t, List.mem_append_left _ ht, hpos⟩

/-- **The nodes of a program stand in the text that it was read from.** -/
theorem pos_lt_of_parse {room : Nat} {source : String} {p : Program}
    (h : Program.parse room source = .ok p) {x : Expr} (hx : x ∈ p.nodes) : x.pos < source.length := by
  obtain ⟨tokens, htokens, hparse⟩ := Program.parse_ok h
  have hyields : p.Yields (Grammar.significant tokens) :=
    Grammar.unlimited_yields (Grammar.unlimited_of_ofTokensWithin hparse)
  obtain ⟨us, hus, hxus⟩ := hyields.nodes x hx
  obtain ⟨t, ht, hpos⟩ := hxus.place
  rw [hpos]
  exact (tokenize_tiles htokens).pos_lt (List.mem_filter.1 (hus.subset ht)).1

/-- A failure of a row of tokens names an offset in the row. -/
theorem Grammar.Refusal.toFailure_pos (refusal : Grammar.Refusal) (tokens : List Token) :
    ∃ k, (refusal.toFailure tokens).pos = some (Grammar.offsetAt tokens k) := by
  cases refusal with
  | tooDeep index => exact ⟨index, rfl⟩
  | stuckAt index =>
    refine ⟨index, ?_⟩
    rw [toFailure, offsetAt]
    cases tokens[index]? <;> rfl

/-- **What is no program fails at an offset of the text.** -/
theorem parse_failure_pos {room : Nat} {source : String} {f : Failure}
    (h : Program.parse room source = .error (.failure f)) :
    ∃ pos, f.pos = some pos ∧ pos ≤ source.length := by
  rcases Program.parse_failure h with htokens | ⟨tokens, htokens, hparse⟩
  · obtain ⟨tolerant, htolerant, t, ht, hf⟩ := tokenize_strict_error htokens
    cases hf
    exact ⟨t.pos, rfl, Nat.le_of_lt ((tokenize_tiles htolerant).pos_lt ht)⟩
  · obtain ⟨refusal, rfl⟩ := Program.ofTokens_error hparse
    obtain ⟨k, hk⟩ := refusal.toFailure_pos tokens
    exact ⟨_, hk, (tokenize_tiles htokens).offsetAt_le k⟩

/-! ### Wordings -/

/-- What a failure says about a node: its class and its wording, by the sort of the node. -/
def Failure.Names (f : Failure) : Expr → Prop
  | .name _ id => f.cause.label = "NameError" ∧ f.cause.message = "'" ++ id ++ "' is not defined"
  | .binary _ op _ _ => f.cause.label = "TypeError" ∧ ∃ left right,
    f.cause.message = "Operator '" ++ op ++ "' is not defined for " ++ left ++ " and " ++ right
  | .call _ _ args =>
    (f.cause.label = "TypeError" ∧ ∃ shown, f.cause.message = "Value " ++ shown ++ " is not a function.") ∨
      f.cause.label = "ArityError" ∧ ∃ params : List String, params.length < args.length ∧
        f.cause.message = "Attempted to invoke function(" ++ ", ".intercalate params ++ ") with "
          ++ toString args.length ++ " arguments but it declares " ++ toString params.length ++ "."
  | _ => False

/-- A failure names what it is blamed on. -/
theorem Failure.Blames.names {f : Failure} {x : Expr} (h : f.Blames x) : f.Names x := by
  obtain ⟨cause, pos⟩ := f
  obtain ⟨-, hcause⟩ := h
  cases cause with
  | unbound name =>
    cases x with
    | name pos id =>
      obtain rfl : id = name := hcause
      exact ⟨rfl, rfl⟩
    | _ => exact hcause.elim
  | operatorUndefined op left right =>
    cases x with
    | binary pos op' a b =>
      obtain rfl : op' = op := hcause
      exact ⟨rfl, left, right, rfl⟩
    | _ => exact hcause.elim
  | notCallable shown =>
    cases x with
    | call pos callee args => exact .inl ⟨rfl, shown, rfl⟩
    | _ => exact hcause.elim
  | tooManyArguments params given =>
    cases x with
    | call pos callee args =>
      obtain ⟨hgiven, hless⟩ : args.length = given ∧ params.length < given := hcause
      subst hgiven
      exact .inr ⟨rfl, params, hless, rfl⟩
    | _ => exact hcause.elim
  | _ => cases x <;> exact hcause.elim

/-! ### Functions in a session -/

namespace Session

/-- A node of a program that one of the scripts is parsed to. -/
def Parsed (scripts : List (Nat × String)) (x : Expr) : Prop :=
  ∃ script ∈ scripts, ∃ room p, Program.parse room script.2 = .ok p ∧ x ∈ p.nodes

variable {known : Expr → Prop}

theorem start_known : (start true [] []).All (Value.Known known) := by
  have hnative : ∀ id name code, Native.IsBuiltin code →
      (Value.native id name true code []).Known known := by
    intro id name code hcode
    refine ⟨?_, by simp [Value.parts, Value.partsAll, Value.nodes]⟩
    intro id' name' discards' code' bound' hpart
    rw [Value.parts, Value.partsAll, List.mem_singleton] at hpart
    cases hpart
    exact hcode
  have hbound : ∀ s, (start true [] []).heap.bindings s
      = if s = 0 then [("print", .native 0 "print" true .print []),
        ("printAvailableDebug", .native 1 "printAvailableDebug" true .printNames [])] else [] := by
    rintro (_ | _ | s)
    · rfl
    · rfl
    · exact Heap.bindings_of_le (Nat.le_add_left 2 s)
  refine ⟨fun s q hq => ?_, fun frame hframe => absurd hframe List.not_mem_nil⟩
  rw [hbound] at hq
  split at hq
  · rcases List.mem_cons.1 hq with rfl | hq
    · exact hnative _ _ _ (.inl rfl)
    · rw [List.mem_singleton.1 hq]
      exact hnative _ _ _ (.inr rfl)
  · exact absurd hq List.not_mem_nil

theorem script_known {source : String}
    (h : ∀ room p, Program.parse room source = .ok p → ∀ x ∈ p.nodes, known x) (depth : Nat) :
    Exec.Keeps (Value.Known known) (runScript toolbox depth source) fun _ => True := by
  cases depth with
  | zero =>
    rw [runScript]
    exact .throw _
  | succ depth =>
    rw [runScript]
    refine Exec.keeps_clear.bind fun _ _ => Exec.Keeps.tryCatch ?_ fun stop => ?_
    · refine Exec.Keeps.bind (Q := fun _ => True) ?_ fun _ _ => ?_
      · refine Exec.Keeps.bind (Q := fun p => Program.parse depth source = .ok p)
          (Exec.keeps_ofStop fun p hp => hp) fun p hp => ?_
        exact ((blames_runProgram depth p globalScope (h depth p hp)).keeps).imp fun _ _ => trivial
      · exact Exec.keeps_get.bind fun _ _ => .pure trivial
    · cases stop with
      | fault f => exact .throw _
      | failure f =>
        refine Exec.keeps_get.bind fun _ _ => (Exec.keeps_emit _ _).bind fun _ _ => ?_
        exact Exec.keeps_get.bind fun _ _ => .pure trivial

/-- **After scripts, functions are made of nodes of these scripts.** -/
theorem continued_known {scripts : List (Nat × String)} {m : Machine}
    (h : ∀ x, Parsed scripts x → known x) (hm : m.All (Value.Known known)) :
    (continued toolbox m scripts).All (Value.Known known) := by
  induction scripts generalizing m with
  | nil => exact hm
  | cons script scripts ih =>
    refine ih (fun x hx => ?_) ((script_known (fun room p hp x hx => ?_) script.1).after hm)
    · obtain ⟨later, hlater, hparsed⟩ := hx
      exact h x ⟨later, List.mem_cons_of_mem _ hlater, hparsed⟩
    · exact h x ⟨script, List.mem_cons_self, room, p, hp, hx⟩

/-! ### Problems -/

section

variable {source : String} {m m' : Machine} {report : Report Value} {problem : Problem} {depth : Nat}

/-- A problem is a failure of the run, at its offset or else at the node entered last. -/
theorem failure_of_problem {run : Exec Value} (h : (reporting source run).run m = .ok report m')
    (hproblem : report.outcome = .error problem) :
    ∃ f m₁, run.run m = .error (.failure f) m₁ ∧ problem.failure = f ∧
      problem.pos = f.pos.or m₁.current ∧ m'.frames = m₁.frames := by
  rw [run_reporting] at h
  cases hrun : run.run m with
  | ok v m₁ =>
    rw [hrun] at h
    obtain ⟨rfl, rfl⟩ := EStateM.Result.ok.inj h
    cases hproblem
  | error stop m₁ =>
    rw [hrun] at h
    cases stop with
    | fault f => cases h
    | failure f =>
      obtain ⟨rfl, rfl⟩ := EStateM.Result.ok.inj h
      obtain rfl := Except.error.inj hproblem
      exact ⟨f, m₁, rfl, rfl, rfl, rfl⟩

/-- A script that is no program has its problem in its own text. -/
theorem located_of_unparsed {stop : Stop} (hparse : Program.parse depth source = .error stop)
    (hrun : (runScript toolbox (depth + 1) source).run m = .ok report m')
    (hproblem : report.outcome = .error problem) :
    ∃ pos, problem.pos = some pos ∧ pos ≤ source.length := by
  rw [runScript, hparse, Exec.run_bind_ok (x := Exec.clear) rfl] at hrun
  obtain ⟨f, m₁, hfailed, rfl, hpos, -⟩ := failure_of_problem hrun hproblem
  obtain ⟨rfl, -⟩ := EStateM.Result.error.inj hfailed
  obtain ⟨pos, hf, hle⟩ := parse_failure_pos hparse
  refine ⟨pos, ?_, hle⟩
  rw [hpos, hf, Option.some_or]

/-- A script that is a program has its problem in its own tree, or in a function that it has called and
that was there before. -/
theorem located_of_parsed {p : Program} (hparse : Program.parse depth source = .ok p)
    (hm : m.All (Value.Known known))
    (hrun : (runScript toolbox (depth + 1) source).run m = .ok report m')
    (hproblem : report.outcome = .error problem) :
    ∃ x, problem.failure.Blames x ∧ problem.pos = some x.pos ∧
      (x ∈ p.nodes ∨ known x ∧ ∃ frame ∈ m'.frames, x ∈ frame.func.nodes) := by
  rw [runScript_eq_runTree toolbox depth hparse, runTree, Exec.run_bind_ok (x := Exec.clear) rfl] at hrun
  obtain ⟨f, m₁, hfailed, rfl, hpos, hframes⟩ := failure_of_problem hrun hproblem
  have hall : (Exec.clear.after m).All (Value.Known fun x => x ∈ p.nodes ∨ known x) := by
    obtain ⟨hbound, hpassed⟩ := Exec.keeps_clear.after hm
    refine ⟨fun s q hq => ?_, fun frame hframe v hv => ?_⟩
    · exact (hbound s q hq).mono fun x hx => .inr hx
    · exact (hpassed frame hframe v hv).mono fun x hx => .inr hx
  have hblamed := blames_runProgram depth p globalScope (fun x hx => .inl hx) _ hall
  rw [show (runProgram toolbox depth p globalScope).run (Exec.clear.after m)
    = .error (.failure problem.failure) m₁ from hfailed] at hblamed
  obtain ⟨-, -, x, hblames, hknown, hplace⟩ := hblamed
  refine ⟨x, hblames, ?_, ?_⟩
  · rw [hpos, hblames.1, Option.some_or]
  · rw [hframes]
    by_cases hown : x ∈ p.nodes
    · exact .inl hown
    · exact .inr ⟨hknown.resolve_left hown, hplace.resolve_left hown⟩

end

/-- **Where problems point to.**  Let a script of a session with the builtins alone have a problem,
whatever scripts ran before.  Then the problem points to an offset.  If the script is no program, or is
nested too deeply, that is an offset of the script.  Else it is the offset of the node that the failure is
blamed on.  The node stands in the script, or else in a function whose call is in progress and which an
earlier script has made; then it is an offset of that script.  Without any depth there is no report. -/
theorem problems_located (earlier : List (Nat × String)) (depth : Nat) (source : String)
    {report : Report Value} {m' : Machine}
    (hrun : (runScript toolbox (depth + 1) source).run (continued toolbox (start true [] []) earlier)
      = .ok report m')
    {problem : Problem} (hproblem : report.outcome = .error problem) :
    ∃ pos, problem.pos = some pos ∧ match Program.parse depth source with
      | .error _ => pos ≤ source.length
      | .ok p => ∃ x, problem.failure.Blames x ∧ pos = x.pos ∧
          ((x ∈ p.nodes ∧ pos < source.length) ∨
            ∃ frame ∈ m'.frames, x ∈ frame.func.nodes ∧ ∃ script ∈ earlier, ∃ room q,
              Program.parse room script.2 = .ok q ∧ x ∈ q.nodes ∧ pos < script.2.length) := by
  cases hparse : Program.parse depth source with
  | error stop => exact located_of_unparsed hparse hrun hproblem
  | ok p =>
    have hm : (continued toolbox (start true [] []) earlier).All (Value.Known (Parsed earlier)) :=
      continued_known (fun _ hx => hx) start_known
    obtain ⟨x, hblames, hpos, hplace⟩ := located_of_parsed hparse hm hrun hproblem
    refine ⟨x.pos, hpos, x, hblames, rfl, ?_⟩
    rcases hplace with hown | ⟨⟨script, hscript, room, q, hq, hx⟩, frame, hframe, hbody⟩
    · exact .inl ⟨hown, pos_lt_of_parse hparse hown⟩
    · exact .inr ⟨frame, hframe, hbody, script, hscript, room, q, hq, hx, pos_lt_of_parse hq hx⟩

/-- The problem that a script has reported, if it has reported one. -/
def problem? : EStateM.Result Stop Machine (Report Value) → Option Problem
  | .ok ⟨.error problem, _⟩ _ => some problem
  | _ => none

theorem problem?_eq_some {r : EStateM.Result Stop Machine (Report Value)} {problem : Problem}
    (h : problem? r = some problem) :
    ∃ report m', r = .ok report m' ∧ report.outcome = .error problem := by
  obtain ⟨⟨problem | v, effects⟩, m'⟩ | ⟨stop, m'⟩ := r
  · exact ⟨_, _, rfl, congrArg Except.error (Option.some.inj h)⟩
  · cases h
  · cases h

/-- A script that makes a function, which asks for `y`. -/
def makingF : List (Nat × String) := [(Evaluator.depthLimit, "f = function() \x7b return y \x7d")]

/-- **A problem can point to an offset that the script does not have.** -/
theorem problem_outside :
    (problem? ((script "f()").run (continued toolbox (start true [] []) makingF))).map
        (fun problem => (problem.failure.describe, problem.pos, problem.place?))
      = some ("NameError: 'y' is not defined", some 24, some ⟨1, 4⟩) ∧ "f()".length < 24 := by
  decide +kernel

theorem problems_located_earlier :
    ∃ report m' problem, (runScript toolbox Evaluator.depthLimit "f()").run
          (continued toolbox (start true [] []) makingF) = .ok report m' ∧
        report.outcome = .error problem ∧
        ∃ pos, problem.pos = some pos ∧ match Program.parse 999 "f()" with
          | .error _ => pos ≤ "f()".length
          | .ok p => ∃ x, problem.failure.Blames x ∧ pos = x.pos ∧
              ((x ∈ p.nodes ∧ pos < "f()".length) ∨
                ∃ frame ∈ m'.frames, x ∈ frame.func.nodes ∧ ∃ script ∈ makingF, ∃ room q,
                  Program.parse room script.2 = .ok q ∧ x ∈ q.nodes ∧ pos < script.2.length) := by
  have hreported : (problem? ((runScript toolbox Evaluator.depthLimit "f()").run
      (continued toolbox (start true [] []) makingF))).map (fun problem => problem.failure.describe)
        = some "NameError: 'y' is not defined" := by decide +kernel
  obtain ⟨problem, hproblem, -⟩ := Option.map_eq_some_iff.1 hreported
  obtain ⟨report, m', hrun, houtcome⟩ := problem?_eq_some hproblem
  exact ⟨report, m', problem, hrun, houtcome, problems_located makingF 999 "f()" hrun houtcome⟩

/-! ### A single run -/

/-- **What a failure names stands in the script.**  Let the first script of a session with the builtins alone
be a program and have a problem.  Then the failure points to a node of that program, which is of the sort
that fails so, and says of it what is wrong; and the report points to the same offset.  The node may stand in
a function that was made, kept and called anywhere. -/
theorem failure_named (depth : Nat) {source : String} {p : Program}
    (hparse : Program.parse depth source = .ok p) {report : Report Value} {m' : Machine}
    (hrun : (runScript toolbox (depth + 1) source).run (start true [] []) = .ok report m')
    {problem : Problem} (hproblem : report.outcome = .error problem) :
    ∃ x ∈ p.nodes, problem.failure.Blames x ∧ problem.failure.Names x ∧
      problem.failure.pos = some x.pos ∧ problem.pos = some x.pos ∧ x.pos < source.length := by
  -- no function was there before
  have hm : (start true [] []).All (Value.Known fun _ => False) := start_known
  obtain ⟨x, hblames, hpos, hplace⟩ := located_of_parsed hparse hm hrun hproblem
  have hx : x ∈ p.nodes := hplace.resolve_right fun h => h.1
  exact ⟨x, hx, hblames, hblames.names, hblames.1, hpos, pos_lt_of_parse hparse hx⟩

/-- A script that calls a function with a function, which asks for `y` when it is called in turn. -/
def callingBack : String := "f = function(g) \x7b return g(1) \x7d f(function(x) \x7b return x + y \x7d)"

theorem failure_named_callingBack :
    ∃ p report m' problem, Program.parse 999 callingBack = .ok p ∧
      (runScript toolbox Evaluator.depthLimit callingBack).run (start true [] []) = .ok report m' ∧
      report.outcome = .error problem ∧
      ∃ x ∈ p.nodes, problem.failure.Blames x ∧ problem.failure.Names x ∧
        problem.failure.pos = some x.pos ∧ problem.pos = some x.pos ∧ x.pos < callingBack.length := by
  have hreported : (problem? ((runScript toolbox Evaluator.depthLimit callingBack).run
      (start true [] []))).map (fun problem => problem.failure.describe)
        = some "NameError: 'y' is not defined" := by decide +kernel
  obtain ⟨problem, hproblem, -⟩ := Option.map_eq_some_iff.1 hreported
  obtain ⟨report, m', hrun, houtcome⟩ := problem?_eq_some hproblem
  have hprogram : (Program.parse 999 callingBack).isOk = true := by decide +kernel
  obtain ⟨p, hparse⟩ : ∃ p, Program.parse 999 callingBack = .ok p := by
    cases hparse : Program.parse 999 callingBack with
    | ok p => exact ⟨p, rfl⟩
    | error stop =>
      rw [hparse] at hprogram
      cases hprogram
  exact ⟨p, report, m', problem, hparse, hrun, houtcome,
    failure_named 999 hparse hrun houtcome⟩

end Session

end Klex
