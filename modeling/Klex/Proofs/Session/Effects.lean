import Mathlib.Data.List.Forall2
import Klex.Proofs.Session.Traces
import Klex.Proofs.Session.Unparsed

/-!
# Effects and calls

Effects are written by builtins, from calls nested to any depth, and by the report of a failure.  The machine
also keeps a list of all calls, so the one can be checked against the other.

* **`Frame.prints`**, **`Frame.Leaves`** — the calls that leave an effect, and the effect that they leave.
* **`Machine.Logs`** — between two machines, calls were made and each that prints left one effect, in order.
* **`Exec.Logs`** — a computation does so, also where it fails; `logs_carries` — and the evaluator with it, if
  the natives are builtins.
* **`Report.complaint`** — the effect that a report adds: its problem, if it has one.
* **`effects_logged`** — **the effects of a script are one for each call that prints, in the order of the
  calls, and then what the report adds.**

Arguments are evaluated before a call is put in progress.  A call whose argument fails is therefore not
among the calls, and leaves no effect.
-/

namespace Klex

open Evaluator

/-! ### Calls that leave an effect -/

namespace Frame

/-- Whether the call is one of the builtins that print. -/
def prints (frame : Frame) : Bool :=
  match frame.func with
  | .native _ _ _ .print _ | .native _ _ _ .printNames _ => true
  | _ => false

/-- The effect is one that the call leaves. -/
def Leaves (frame : Frame) (effect : Effect) : Prop :=
  match frame.func with
  | .native _ _ _ .print _ =>
    effect = ⟨"stdout", Toolbox.printedText (frame.args[0]?.getD .null)⟩
  | .native _ _ _ .printNames _ => effect.topic = "debug"
  | _ => False

theorem Leaves.topic {frame : Frame} {effect : Effect} (h : frame.Leaves effect) :
    effect.topic = "stdout" ∨ effect.topic = "debug" := by
  unfold Leaves at h
  split at h
  · exact .inl (congrArg Effect.topic h)
  · exact .inr h
  · exact h.elim

theorem topics_of_leaves {frames : List Frame} {records : List Effect}
    (h : List.Forall₂ Leaves frames records) :
    ∀ record ∈ records, record.topic = "stdout" ∨ record.topic = "debug" := by
  induction h with
  | nil => exact fun record hrecord => absurd hrecord List.not_mem_nil
  | cons hleaves _ ih => exact List.forall_mem_cons.2 ⟨hleaves.topic, ih⟩

/-- Only natives print. -/
theorem prints_plain {frame : Frame}
    (h : ∀ id name discards code bound, frame.func ≠ .native id name discards code bound) :
    frame.prints = false := by
  unfold prints
  split
  · next hfunc => exact absurd hfunc (h _ _ _ _ _)
  · next hfunc => exact absurd hfunc (h _ _ _ _ _)
  · rfl

end Frame

/-! ### What is logged between two machines -/

/-- From one machine to the other, calls were made, and each that prints left one effect, in this order.
The first effects may be owed to calls that were made just before. -/
def Machine.Logs (owed : List Frame) (m m' : Machine) : Prop :=
  ∃ calls records, m'.trace = calls.reverse ++ m.trace ∧
    m'.effects.toList = m.effects.toList ++ records ∧
    List.Forall₂ Frame.Leaves ((owed ++ calls).filter Frame.prints) records

namespace Machine.Logs

variable {owed : List Frame} {frame : Frame} {m m₁ m' : Machine}

/-- Neither a call nor an effect. -/
theorem still (htrace : m'.trace = m.trace) (heffects : m'.effects = m.effects) : m.Logs [] m' :=
  ⟨[], [], htrace, by rw [heffects, List.append_nil], .nil⟩

theorem trans (h : m.Logs owed m₁) (h' : m₁.Logs [] m') : m.Logs owed m' := by
  obtain ⟨calls, records, htrace, heffects, hleft⟩ := h
  obtain ⟨calls', records', htrace', heffects', hleft'⟩ := h'
  refine ⟨calls ++ calls', records ++ records', ?_, ?_, ?_⟩
  · rw [htrace', htrace, List.reverse_append, List.append_assoc]
  · rw [heffects', heffects, List.append_assoc]
  · rw [← List.append_assoc, List.filter_append]
    exact List.rel_append hleft hleft'

/-- Nothing is owed to a call that does not print. -/
theorem plain (h : m.Logs [] m') (hframe : frame.prints = false) : m.Logs [frame] m' := by
  obtain ⟨calls, records, htrace, heffects, hleft⟩ := h
  refine ⟨calls, records, htrace, heffects, ?_⟩
  rw [List.singleton_append, List.filter_cons, hframe]
  exact hleft

/-- A call that is put in progress comes first among the calls. -/
theorem opened (h : m₁.Logs [frame] m') (htrace : m₁.trace = frame :: m.trace)
    (heffects : m₁.effects = m.effects) : m.Logs [] m' := by
  obtain ⟨calls, records, hcalls, hrecords, hleft⟩ := h
  refine ⟨frame :: calls, records, ?_, ?_, hleft⟩
  · rw [hcalls, htrace, List.reverse_cons, List.append_assoc, List.singleton_append]
  · rw [hrecords, heffects]

/-- The effect that was owed to a call. -/
theorem emitted {effect : Effect} (hprints : frame.prints = true) (hleaves : frame.Leaves effect)
    (htrace : m'.trace = m.trace) (heffects : m'.effects = m.effects.push effect) :
    m.Logs [frame] m' := by
  refine ⟨[], [effect], htrace, ?_, ?_⟩
  · rw [heffects, Array.toList_push]
  · rw [List.append_nil, List.filter_cons, hprints]
    exact .cons hleaves .nil

end Machine.Logs

/-! ### Computations -/

/-- What was done until the run ended or failed is logged.  A fault ends the whole script. -/
def Machine.Logged {α : Type} (owed : List Frame) (m : Machine) : EStateM.Result Stop Machine α → Prop
  | .ok _ m' => m.Logs owed m'
  | .error (.failure _) m' => m.Logs owed m'
  | .error (.fault _) _ => True

theorem Machine.Logged.imp {α : Type} {owed owed' : List Frame} {m n : Machine}
    {r : EStateM.Result Stop Machine α} (h : m.Logged owed r)
    (himp : ∀ m', m.Logs owed m' → n.Logs owed' m') : n.Logged owed' r := by
  cases r with
  | ok a m' => exact himp m' h
  | error stop m' =>
    cases stop with
    | failure f => exact himp m' h
    | fault f => trivial

/-- What the computation does is logged. -/
def Exec.Logs {α : Type} (good : Value → Prop) (owed : List Frame) (x : Exec α) : Prop :=
  ∀ m : Machine, m.All good → m.Logged owed (x.run m)

variable {good : Value → Prop}

namespace Exec.Logs

variable {α β : Type} {owed : List Frame} {frame : Frame} {x : Exec α}

/-- An operation of the machine that neither calls nor writes effects. -/
theorem still (h : ∀ m, ∃ a m', x.run m = .ok a m' ∧ m'.trace = m.trace ∧ m'.effects = m.effects) :
    Logs good [] x := by
  intro m _
  obtain ⟨a, m', hrun, htrace, heffects⟩ := h m
  rw [hrun]
  exact .still htrace heffects

theorem pure (a : α) : Logs good [] (pure a) := .still fun _ => ⟨_, _, rfl, rfl, rfl⟩

theorem throw (stop : Stop) : Logs good [] (throw stop : Exec α) := by
  intro m _
  cases stop with
  | failure f => exact .still rfl rfl
  | fault f => trivial

/-- One computation after the other. -/
theorem bind {f : α → Exec β} {Q : α → Prop} (hx : Logs good owed x) (hkeeps : Exec.Keeps good x Q)
    (hf : ∀ a, Q a → Logs good [] (f a)) : Logs good owed (x >>= f) := by
  intro m hm
  have hxm := hx m hm
  cases hrun : x.run m with
  | error stop m₁ =>
    rw [hrun] at hxm
    rw [Exec.run_bind_error hrun]
    cases stop <;> exact hxm
  | ok a m₁ =>
    rw [hrun] at hxm
    obtain ⟨hm₁, ha⟩ := hkeeps.ok hm hrun
    rw [Exec.run_bind_ok hrun]
    exact (hf a ha m₁ hm₁).imp fun m' hrest => Machine.Logs.trans hxm hrest

theorem composes : Exec.Composes good (Logs good []) :=
  ⟨pure, throw, fun hx hkeeps hf => hx.bind hkeeps hf⟩

/-- Nothing is owed to a call that does not print. -/
theorem plain (hx : Logs good [] x) (hframe : frame.prints = false) : Logs good [frame] x :=
  fun m hm => (hx m hm).imp fun _ h => h.plain hframe

/-- A call that is put in progress gives what it owes. -/
theorem opened {x : Exec Value} (hargs : ∀ v ∈ frame.args, good v) (hkeeps : Exec.Keeps good x good)
    (hx : Logs good [frame] x) : Logs good [] (do push frame; let v ← x; pop; return v) := by
  have hpop : Logs good [] Exec.pop := .still fun _ => ⟨_, _, rfl, rfl, rfl⟩
  have hclosed : Logs good [frame] (do let v ← x; Exec.pop; return v) :=
    hx.bind hkeeps fun v _ => hpop.bind Exec.keeps_pop fun _ _ => pure v
  intro m hm
  have hpush : (push frame).run m = .ok () ((push frame).after m) := rfl
  rw [Exec.run_bind_ok hpush]
  exact (hclosed _ ((Exec.keeps_push hargs).after hm)).imp fun _ h => h.opened rfl rfl

/-- A builtin leaves the effect that its call owes. -/
theorem builtin {code : Native} (hcode : code.IsBuiltin) {id : Nat} {name : String} {discards : Bool}
    {bound : List Value} (hfunc : frame.func = .native id name discards code bound) (reentry : Reentry)
    (s : ScopeId) :
    Logs good [frame] (callNative toolbox reentry discards code ⟨s, frame.args, bound⟩) := by
  intro m _
  rcases hcode with rfl | rfl
  · have hprints : frame.prints = true := by rw [Frame.prints, hfunc]
    have hleaves : frame.Leaves ⟨"stdout", Toolbox.printedText (frame.args[0]?.getD .null)⟩ := by
      rw [Frame.Leaves, hfunc]
    exact .emitted hprints hleaves rfl rfl
  · have hprints : frame.prints = true := by rw [Frame.prints, hfunc]
    have hleaves : frame.Leaves ⟨"debug", ", ".intercalate (Toolbox.sortedNames m.heap s)⟩ := by
      rw [Frame.Leaves, hfunc]
    exact .emitted hprints hleaves rfl rfl

end Exec.Logs

/-- **The evaluator logs what it does, if all natives are builtins.** -/
theorem Exec.logs_carries
    (hnatives : ∀ id name discards code bound, good (.native id name discards code bound) →
      code.IsBuiltin) :
    Exec.Carries good toolbox (Exec.Logs good []) fun frame x => Exec.Logs good [frame] x where
  toComposes := Exec.Logs.composes
  enter _ := .still fun _ => ⟨_, _, rfl, rfl, rfl⟩
  heap := .still fun _ => ⟨_, _, rfl, rfl, rfl⟩
  freshId := .still fun _ => ⟨_, _, rfl, rfl, rfl⟩
  alloc _ _ := .still fun _ => ⟨_, _, rfl, rfl, rfl⟩
  defineAll _ _ := .still fun _ => ⟨_, _, rfl, rfl, rfl⟩
  assign _ _ _ := .still fun _ => ⟨_, _, rfl, rfl, rfl⟩
  opened := .opened
  fault _ _ := fun _ _ => trivial
  plain hfunc hx := hx.plain (Frame.prints_plain hfunc)
  native reentry _ frame id name discards code bound s hfunc hf _ := by
    rw [hfunc] at hf
    exact .builtin (hnatives id name discards code bound hf) hfunc reentry s

theorem logs_program (depth : Nat) (p : Program) (s : ScopeId) :
    Exec.Logs (Value.UsesOnly Native.IsBuiltin) [] (runProgram toolbox depth p s) := by
  have hkeeps : toolbox.Keeps (Value.UsesOnly Native.IsBuiltin) := toolbox_keeps_usesOnly
  have hcarries : Exec.Carries (Value.UsesOnly Native.IsBuiltin) toolbox _ _ :=
    Exec.logs_carries fun _ _ _ _ _ hnative => hnative.code
  exact (carried hcarries Value.usesOnly_trait hkeeps depth).program hcarries
    (keeps Value.usesOnly_trait hkeeps depth) p s

/-! ### Scripts -/

/-- The effect that a report leaves itself: its problem, if it has one. -/
def Report.complaint (report : Report Value) : List Effect :=
  match report.outcome with
  | .ok _ => []
  | .error problem => [⟨"stderr", problem.message⟩]

theorem Report.mem_complaint {report : Report Value} :
    (∃ effect ∈ report.complaint, effect.topic = "stderr") ↔
      ∃ problem, report.outcome = .error problem := by
  rw [Report.complaint]
  cases report.outcome with
  | ok v => simp
  | error problem => simp

namespace Session

variable {m m' : Machine} {report : Report Value} {depth : Nat} {source : String}

/-- A report tells the effects that its run has left, and then its problem. -/
theorem reporting_logged {run : Exec Value} (hlogged : m.Logged [] (run.run m))
    (hrun : (reporting source run).run m = .ok report m') :
    ∃ m₁, m.Logs [] m₁ ∧ m'.trace = m₁.trace ∧ m'.effects.toList = report.effects ∧
      report.effects = m₁.effects.toList ++ report.complaint := by
  rw [run_reporting] at hrun
  cases hinner : run.run m with
  | ok v m₁ =>
    rw [hinner] at hrun hlogged
    obtain ⟨rfl, rfl⟩ := EStateM.Result.ok.inj hrun
    exact ⟨m₁, hlogged, rfl, rfl, (List.append_nil _).symm⟩
  | error stop m₁ =>
    rw [hinner] at hrun hlogged
    cases stop with
    | fault f => cases hrun
    | failure f =>
      obtain ⟨rfl, rfl⟩ := EStateM.Result.ok.inj hrun
      exact ⟨m₁, hlogged, rfl, rfl, Array.toList_push⟩

/-- What a script does is logged, and the effects of earlier scripts are forgotten. -/
theorem script_logged (hm : m.All (Value.UsesOnly Native.IsBuiltin))
    (hrun : (runScript toolbox (depth + 1) source).run m = .ok report m') :
    ∃ (calls : List Frame) (records : List Effect), m'.trace = calls.reverse ++ m.trace ∧
      List.Forall₂ Frame.Leaves (calls.filter Frame.prints) records ∧
      m'.effects.toList = report.effects ∧ report.effects = records ++ report.complaint := by
  rcases parse_cases depth source with ⟨p, hparse⟩ | ⟨f, hparse⟩
  · rw [runScript_eq_runTree toolbox depth hparse, runTree, Exec.run_bind_ok (x := Exec.clear) rfl]
      at hrun
    have hlogged := logs_program depth p globalScope _ (Exec.keeps_clear.after hm)
    obtain ⟨m₁, ⟨calls, records, htrace, heffects, hleft⟩, htrace', hleft', hreport⟩ :=
      reporting_logged hlogged hrun
    refine ⟨calls, records, htrace'.trans htrace, hleft, hleft', ?_⟩
    rw [hreport, heffects]
    rfl
  · rw [run_unparsed toolbox depth hparse m] at hrun
    obtain ⟨rfl, rfl⟩ := EStateM.Result.ok.inj hrun
    exact ⟨[], [], rfl, .nil, rfl, rfl⟩

theorem continued_builtins (earlier : List (Nat × String)) :
    (continued toolbox (start true [] []) earlier).All (Value.UsesOnly Native.IsBuiltin) := by
  have hknown : (continued toolbox (start true [] []) earlier).All (Value.Known fun _ => True) :=
    continued_known (fun _ _ => trivial) start_known
  refine ⟨fun s q hq => (hknown.bound s q hq).natives, fun frame hframe v hv => ?_⟩
  exact (hknown.passed frame hframe v hv).natives

/-- **Effects go with calls.**  Let a script of a session with the builtins alone come to a report, whatever
scripts ran before.  The calls that it has made are those that the machine lists above the earlier ones.  Its
effects are one for each call that prints, in the order of the calls, and then the problem, if there is
one.  The former have the topics of the builtins, so only a problem is ever found under `stderr`. -/
theorem effects_logged (earlier : List (Nat × String)) (depth : Nat) (source : String)
    {report : Report Value} {m' : Machine}
    (hrun : (runScript toolbox depth source).run (continued toolbox (start true [] []) earlier)
      = .ok report m') :
    ∃ (calls : List Frame) (records : List Effect),
      m'.trace = calls.reverse ++ (continued toolbox (start true [] []) earlier).trace ∧
      List.Forall₂ Frame.Leaves (calls.filter Frame.prints) records ∧
      (∀ record ∈ records, record.topic = "stdout" ∨ record.topic = "debug") ∧
      m'.effects.toList = report.effects ∧ report.effects = records ++ report.complaint ∧
      ((∃ effect ∈ report.effects, effect.topic = "stderr") ↔
        ∃ problem, report.outcome = .error problem) := by
  cases depth with
  | zero =>
    rw [runScript] at hrun
    cases hrun
  | succ depth =>
    obtain ⟨calls, records, htrace, hleft, heffects, hreport⟩ :=
      script_logged (continued_builtins earlier) hrun
    have htopics := Frame.topics_of_leaves hleft
    refine ⟨calls, records, htrace, hleft, htopics, heffects, hreport, ?_⟩
    rw [← Report.mem_complaint, hreport]
    constructor
    · rintro ⟨effect, heffect, htopic⟩
      rcases List.mem_append.1 heffect with hrecord | hcomplaint
      · rcases htopics effect hrecord with hout | hdebug
        · exact absurd (htopic.symm.trans hout) (by decide)
        · exact absurd (htopic.symm.trans hdebug) (by decide)
      · exact ⟨effect, hcomplaint, htopic⟩
    · rintro ⟨effect, hcomplaint, htopic⟩
      exact ⟨effect, List.mem_append_right _ hcomplaint, htopic⟩

/-- A script that prints, and that fails in an argument of a call that would print. -/
def failingArgument : String := "f = function(x) \x7b print(x) return y \x7d print(f(1))"

theorem effects_logged_failing :
    ∃ report m' problem, (script failingArgument).run (continued toolbox (start true [] []) failingCall)
        = .ok report m' ∧ report.outcome = .error problem ∧
      report.effects.map Effect.topic = ["stdout", "stderr"] ∧
      ∃ (calls : List Frame) (records : List Effect),
        List.Forall₂ Frame.Leaves (calls.filter Frame.prints) records ∧
        report.effects = records ++ [⟨"stderr", problem.message⟩] := by
  have hmessage : (problem? ((script failingArgument).run
      (continued toolbox (start true [] []) failingCall))).map (fun problem => problem.message)
        = some "NameError: 'y' is not defined\nKlex stacktrace: (f 1)" := by decide +kernel
  have htopics : ((script failingArgument).after
      (continued toolbox (start true [] []) failingCall)).effects.toList.map Effect.topic
        = ["stdout", "stderr"] := by decide +kernel
  obtain ⟨problem, hproblem, -⟩ := Option.map_eq_some_iff.1 hmessage
  obtain ⟨report, m', hrun, houtcome⟩ := problem?_eq_some hproblem
  obtain ⟨calls, records, -, hleft, -, heffects, hreport, -⟩ :=
    effects_logged failingCall Evaluator.depthLimit failingArgument hrun
  rw [Exec.after, hrun] at htopics
  refine ⟨report, m', problem, hrun, houtcome, ?_, calls, records, hleft, ?_⟩
  · rw [← heffects]
    exact htopics
  · rw [hreport, Report.complaint, houtcome]

end Session

end Klex
