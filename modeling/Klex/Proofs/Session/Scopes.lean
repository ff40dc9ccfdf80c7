import Klex.Proofs.Host.Toolbox
import Klex.Proofs.Session.Course

/-!
# Scopes in the course of a session

* **`scopes_endure`** — **in every state of a session chains of scopes come to an end and functions
  capture scopes that there are; and whatever runs, to its end or not, a scope keeps its place, its
  sort and its names.**
* **`names_stay`** — **where natives bind no new names, variables do not leak**: an expression or a
  block adds names to no scope that was there before, and any other statement to its own scope
  alone; so the outermost scope keeps the names that it was made with.
-/

namespace Klex

open Machine

/-! ### The invariant of scopes -/

/-- Whatever a host can do through scopes: any natives, which may bind.  A value fits this policy if
all functions in it capture scopes that there are. -/
def Policy.any : Policy := .lenient (fun _ => True) True

mutual

theorem Given.fits_any : (g : Given) → g.Fits .any
  | .null | .bool _ | .int _ | .float _ | .text _ | .absent | .native _ _ _ | .function _
  | .ref _ => trivial
  | .list items => Given.fitAll_any items

theorem Given.fitAll_any : (gs : List Given) → Given.FitAll .any gs
  | [] => trivial
  | g :: gs => ⟨g.fits_any, Given.fitAll_any gs⟩

end

namespace Session

theorem equips_any (withBuiltins : Bool) (methods : List Method) (init : List (String × Given)) :
    Equips .any withBuiltins methods init where
  builtins _ _ _ := trivial
  methods method _ _ _ _ := ⟨trivial, method.value.fits_any⟩
  init p _ := p.2.fits_any

/-- **Scopes endure.**  Let natives change scopes by steps of the machine only, and let a session
have come to a machine `m` by any steps.  Then every scope stands in one made before it, and its
chain is the walk outward, which ends at a scope that stands in no other; the functions among the
bound values and the arguments capture scopes that there are.  Any task, whether it ends or stops
early, goes on by steps, and the functions in what it comes to capture scopes that there are then.
And at any later time every scope has the place and the sort that it had, and the names that it had
and perhaps more, so that a name that could be seen from it can be seen from it still. -/
theorem scopes_endure (host : Host) (hhost : host.Obeys .any (globalScope + 1))
    (withBuiltins : Bool) (methods : List Method) (init : List (String × Given)) (m : Machine)
    (hm : Steps .any (fun _ => True) (start withBuiltins methods init) m) :
    ((∀ s p : Nat, m.heap.parent? s = some p → p < s) ∧
      (∀ s, m.heap.chain s = s :: (match m.heap.parent? s with
        | some p => m.heap.chain p
        | none => [])) ∧
      ∀ s, ∃ last, (m.heap.chain s).getLast? = some last ∧ m.heap.parent? last = none) ∧
    (∀ id params body s, m.Holds (.closure id params body s) → s < m.heap.size) ∧
    (∀ (depth : Nat) (task : Task), task.Fits .any m →
      Steps .any (fun _ => True) m ((task.run host depth).after m) ∧
      ∀ v, (task.run host depth).value? m = some v → ∀ id params body s,
        .closure id params body s ∈ v.parts → s < ((task.run host depth).after m).heap.size) ∧
    ∀ later, Steps .any (fun _ => True) m later →
      (∀ s, s < m.heap.size →
        later.heap.parent? s = m.heap.parent? s ∧ later.heap.boundary? s = m.heap.boundary? s ∧
          Bindings.names (m.heap.bindings s) <+: Bindings.names (later.heap.bindings s)) ∧
      ∀ s name, (m.heap.lookup? s name).isSome = true →
        (later.heap.lookup? s name).isSome = true := by
  have hstart := start_fit (P := .any) trivial (equips_any withBuiltins methods init)
  have hfit := hstart.1.steps hm
  have hsize : globalScope + 1 ≤ m.heap.size := Nat.le_trans hstart.2 hm.grows.size
  refine ⟨⟨hfit.nested, Heap.chain_eq hfit.nested, Heap.chain_ends hfit.nested⟩, ?_, ?_, ?_⟩
  · intro id params body s hheld
    exact (hfit.holds hheld).1
  · intro depth task htask
    have hobeys := Task.obeys depth Policy.lenient_sound hhost hsize htask
    refine ⟨(hobeys.steps hfit).widen fun _ _ => trivial, ?_⟩
    intro v hv id params body s hpart
    exact ((hobeys.fits hfit v hv).part _ _ hpart).1
  · intro later hlater
    have hgrows := hlater.grows
    refine ⟨fun s hs => ⟨hgrows.parent s hs, hgrows.boundary s hs, hgrows.names s hs⟩, ?_⟩
    intro s name hseen
    exact hgrows.lookup?_isSome hfit.nested (hfit.steps hlater).nested hseen

theorem scopes_endure_builtins :
    ((start true [] []).heap.lookup? globalScope "print").isSome = true ∧
      ((((Task.script "print = 1").run toolbox 9).after (start true [] [])).heap.lookup? globalScope
        "print").isSome = true := by
  have hseen : ((start true [] []).heap.lookup? globalScope "print").isSome = true := by decide
  have hglobal : globalScope < (start true [] []).heap.size := by decide
  have hendure := scopes_endure toolbox
    (toolbox_obeys (fun _ _ _ => trivial) fun _ => Nat.lt_succ_self _) true [] [] _ .refl
  exact ⟨hseen, (hendure.2.2.2 _ (hendure.2.2.1 9 (.script "print = 1") hglobal).1).2 _ _ hseen⟩

end Session

/-! ### New names -/

/-- The given natives, none of which binds a new name in a scope that it finds. -/
def Policy.quiet (natives : Native → Prop) : Policy := .lenient natives False

namespace Session

/-- A session with the builtins alone starts with natives that are builtins. -/
theorem start_fit_builtins :
    (start true [] []).Fit (.quiet Native.IsBuiltin) ∧ globalScope < (start true [] []).heap.size := by
  refine start_fit (P := .quiet Native.IsBuiltin) trivial ⟨fun _ => ?_, by simp, by simp⟩
  show ∀ p ∈ builtins, p.2 = .print ∨ p.2 = .printNames
  decide

/-- **New names do not leak.**  Let the natives that turn up bind no new names in scopes that they
find.  Then an expression or a block leaves the names of every scope as they are, whether it ends or
stops early, and any other statement those of every scope but its own.  In a session that is given
such natives only, the outermost scope has the names that it started with, whatever scripts run. -/
theorem names_stay (host : Host) (natives : Native → Prop) (hhost : host.Obeys (.quiet natives) 0) :
    (∀ m : Machine, m.Fit (.quiet natives) → ∀ depth s t : Nat, s < m.heap.size → t < m.heap.size →
      (∀ e, Bindings.names (((Evaluator.evaluate host depth e s).after m).heap.bindings t)
        = Bindings.names (m.heap.bindings t)) ∧
      (∀ pos body,
        Bindings.names
            (((Evaluator.execute host depth (.block pos body) s).after m).heap.bindings t)
          = Bindings.names (m.heap.bindings t)) ∧
      ∀ stmt, t ≠ s →
        Bindings.names (((Evaluator.execute host depth stmt s).after m).heap.bindings t)
          = Bindings.names (m.heap.bindings t)) ∧
    ∀ (withBuiltins : Bool) (methods : List Method) (init : List (String × Given)),
      Equips (.quiet natives) withBuiltins methods init → ∀ scripts : List (Nat × String),
        Bindings.names
            ((continued host (start withBuiltins methods init) scripts).heap.bindings rootScope)
          = Bindings.names ((start withBuiltins methods init).heap.bindings rootScope) := by
  have hP : (Policy.quiet natives).Sound := Policy.lenient_sound
  have hfresh : ∀ {n t : Nat}, t < n → ¬ (Policy.quiet natives).Fresh n t :=
    fun ht hfresh => hfresh.elim id fun hle => Nat.not_le_of_lt ht hle
  refine ⟨?_, ?_⟩
  · intro m hm depth s t hs ht
    have h := Evaluator.conduct hP hhost depth
    -- a statement is silent about `t` unless `t` is its own scope and it opens no other
    have hexecute : ∀ stmt : Stmt, ¬ (stmt.opensScope = false ∧ t = s) →
        Bindings.names (((Evaluator.execute host depth stmt s).after m).heap.bindings t)
          = Bindings.names (m.heap.bindings t) := by
      intro stmt hother
      have hwithin : stmt.Within (.quiet natives) := fun x _ => Policy.lenient_admits x
      refine ((h.execute (Nat.zero_le _) hwithin hs).steps hm).grows.same t ht ?_
      exact fun hnew => hnew.elim (hfresh ht) hother
    refine ⟨fun e => ?_, fun pos body => ?_, fun stmt hts => ?_⟩
    · have hwithin : e.Within (.quiet natives) := fun x _ => Policy.lenient_admits x
      exact ((h.evaluate (Nat.zero_le _) hwithin hs).steps hm).grows.same t ht (hfresh ht)
    · exact hexecute _ fun hopen => absurd hopen.1 (by simp [Stmt.opensScope])
    · exact hexecute stmt fun hhome => hts hhome.2
  · intro withBuiltins methods init hequips scripts
    have hstart := start_fit (P := .quiet natives) trivial hequips
    have hroot : rootScope < (start withBuiltins methods init).heap.size :=
      Nat.lt_trans (Nat.zero_lt_one) hstart.2
    have hsteps := continued_steps hP hhost hstart.1 (Nat.zero_le _) hstart.2 scripts
    refine hsteps.grows.same rootScope hroot ?_
    rintro (hnew | hglobal)
    · exact hfresh hroot hnew
    · exact absurd hglobal (by decide)

/-- A function that assigns a variable, called on the spot. -/
def assigningCall : Expr := .call 0 (.function 0 [] (.assign 13 "x" (.literal 17 (.int 1)))) []

theorem names_stay_builtins :
    Bindings.names (((Evaluator.evaluate toolbox 9 assigningCall globalScope).after
        (start true [] [])).heap.bindings globalScope) = [] ∧
      Bindings.names ((continued toolbox (start true [] [])
        [(9, "x = 1"), (9, "print(x)")]).heap.bindings rootScope)
          = ["print", "printAvailableDebug"] := by
  have hquiet : toolbox.Obeys (.quiet fun code => code.addsNames = false) 0 := by
    refine toolbox_obeys ?_ ?_
    · intro code hcode hadds
      rw [hcode] at hadds
      exact absurd hadds (by decide)
    · exact fun hscript => absurd hscript (by decide)
  have hequips : Equips (.quiet fun code => code.addsNames = false) true [] [] := by
    refine ⟨fun _ => ?_, by simp, by simp⟩
    show ∀ p ∈ builtins, p.2.addsNames = false
    decide
  have hstart := start_fit (P := .quiet fun code => code.addsNames = false) trivial hequips
  have hstay := names_stay toolbox _ hquiet
  constructor
  · rw [(hstay.1 _ hstart.1 9 globalScope globalScope hstart.2 hstart.2).1 assigningCall]
    decide
  · rw [hstay.2 true [] [] hequips]
    decide

end Session

end Klex
