import Klex.Operator
import Klex.Machine
import Klex.Tree.Parse
import Klex.Proofs.Scope.Growth
import Klex.Proofs.Tree.Nodes

/-!
# What may turn up in a machine

The invariants of a running machine differ in what they say about single values and single steps, and
are carried through the evaluator by the same argument.  A policy is what they differ in.

* **`Policy`** — which atomic values, operators, natives and faults may turn up, and whether natives may
  give new names to scopes that were there before.
* **`Expr.Within`**, **`Stmt.Within`**, **`Program.Within`** — a tree with such literals and operators.
* **`Value.Fits`** — such a value, as it may stand in a machine with a given number of scopes: **a
  function captures a scope that there is**, and its body is such a tree.  The same is then true of the
  parts of the value (`Value.parts`), and its natives are of the policy (`Value.UsesOnly`).
* **`Policy.Sound`** — what evaluation itself adds stays within the policy.
-/

namespace Klex

/-- What may turn up while scripts run. -/
structure Policy where
  /-- Values that are neither functions nor lists. -/
  atom : Value → Prop
  operator : String → Prop
  native : Native → Prop
  fault : Fault → Prop
  /-- Whether natives may bind new names in the scopes that they find. -/
  binding : Prop

namespace Policy

/-- A node of a tree with an admitted literal or operator. -/
def Admits (P : Policy) : Expr → Prop
  | .literal _ value => P.atom (.ofLiteral value)
  | .binary _ op _ _ => P.operator op
  | _ => True

/-- Scopes that may get new names from a computation that starts with `n` scopes. -/
def Fresh (P : Policy) (n s : Nat) : Prop := P.binding ∨ n ≤ s

theorem Fresh.mono {P : Policy} {n n' s : Nat} (hn : n ≤ n') (h : P.Fresh n' s) : P.Fresh n s :=
  h.imp_right fun hs => Nat.le_trans hn hs

end Policy

/-- A native that every session has, unless it is asked not to. -/
def Native.IsBuiltin (code : Native) : Prop := code = .print ∨ code = .printNames

/-! ### Trees -/

def Expr.Within (P : Policy) (e : Expr) : Prop := ∀ x ∈ e.nodes, P.Admits x

def Stmt.Within (P : Policy) (s : Stmt) : Prop := ∀ x ∈ s.nodes, P.Admits x

def Program.Within (P : Policy) (p : Program) : Prop := ∀ x ∈ p.nodes, P.Admits x

section

variable {P : Policy} {pos : Nat} {place : Option Nat}

theorem Expr.forall_nodesAll {es : List Expr} :
    (∀ x ∈ Expr.nodesAll es, P.Admits x) ↔ ∀ e ∈ es, e.Within P := by
  induction es with
  | nil => simp [Expr.nodesAll]
  | cons e es ih => rw [Expr.nodesAll, List.forall_mem_append, List.forall_mem_cons, ih, Expr.Within]

theorem Stmt.forall_nodesAll {ss : List Stmt} :
    (∀ x ∈ Stmt.nodesAll ss, P.Admits x) ↔ ∀ s ∈ ss, s.Within P := by
  induction ss with
  | nil => simp [Stmt.nodesAll]
  | cons s ss ih => rw [Stmt.nodesAll, List.forall_mem_append, List.forall_mem_cons, ih, Stmt.Within]

theorem Expr.within_literal {value : Literal} :
    (Expr.literal pos value).Within P ↔ P.atom (.ofLiteral value) := by
  simp [Expr.Within, Expr.nodes, Policy.Admits]

theorem Expr.within_group {e : Expr} : (Expr.group pos e).Within P ↔ e.Within P := by
  simp [Expr.Within, Expr.nodes, Policy.Admits]

theorem Expr.within_negate {e : Expr} : (Expr.negate pos e).Within P ↔ e.Within P := by
  simp [Expr.Within, Expr.nodes, Policy.Admits]

theorem Expr.within_binary {op : String} {left right : Expr} :
    (Expr.binary pos op left right).Within P ↔ P.operator op ∧ left.Within P ∧ right.Within P := by
  simp only [Expr.Within, Expr.nodes, List.forall_mem_cons, List.forall_mem_append, Policy.Admits]

theorem Expr.within_call {callee : Expr} {args : List Expr} :
    (Expr.call pos callee args).Within P ↔ callee.Within P ∧ ∀ e ∈ args, e.Within P := by
  rw [← Expr.forall_nodesAll]
  simp only [Expr.Within, Expr.nodes, List.forall_mem_cons, List.forall_mem_append, Policy.Admits,
    true_and]

theorem Expr.within_function {params : List String} {body : Stmt} :
    (Expr.function pos params body).Within P ↔ body.Within P := by
  simp [Expr.Within, Expr.nodes, Policy.Admits, Stmt.Within]

theorem Stmt.within_block {body : List Stmt} :
    (Stmt.block place body).Within P ↔ ∀ s ∈ body, s.Within P :=
  Stmt.forall_nodesAll

theorem Stmt.within_cond {test : Expr} {yes : Stmt} {no : Option Stmt} :
    (Stmt.cond pos test yes no).Within P
      ↔ test.Within P ∧ yes.Within P ∧ ∀ s, no = some s → s.Within P := by
  rw [Stmt.Within, Stmt.nodes, List.forall_mem_append, List.forall_mem_append]
  cases no <;> simp [Stmt.nodesElse, Expr.Within, Stmt.Within]

theorem Program.within_iff {p : Program} : p.Within P ↔ ∀ s ∈ p.statements, s.Within P :=
  Stmt.forall_nodesAll

end

/-! ### Values -/

mutual

/-- A value that may stand in a machine with `n` scopes. -/
def Value.Fits (P : Policy) (n : Nat) : Value → Prop
  | .closure _ _ body scope => scope < n ∧ body.Within P
  | .native _ _ _ code bound => P.native code ∧ Value.FitAll P n bound
  | .list _ items => Value.FitAll P n items
  | v => P.atom v

/-- Values that may stand in a machine with `n` scopes. -/
def Value.FitAll (P : Policy) (n : Nat) : List Value → Prop
  | [] => True
  | v :: vs => v.Fits P n ∧ Value.FitAll P n vs

end

mutual

/-- A value and the values in it: the items of a list, and what a native comes with. -/
def Value.parts : Value → List Value
  | .native id name discards code bound =>
    .native id name discards code bound :: Value.partsAll bound
  | .list id items => .list id items :: Value.partsAll items
  | v => [v]

/-- The parts of a row of values. -/
def Value.partsAll : List Value → List Value
  | [] => []
  | v :: vs => v.parts ++ Value.partsAll vs

end

namespace Value

variable {P : Policy} {n n' : Nat}

theorem fitAll_iff (vs : List Value) : FitAll P n vs ↔ ∀ v ∈ vs, v.Fits P n := by
  induction vs with
  | nil => simp [FitAll]
  | cons v vs ih => simp [FitAll, ih]

-- A scope that there is stays; the recursion follows that of `Fits`.
mutual

theorem Fits.mono (hn : n ≤ n') : (v : Value) → v.Fits P n → v.Fits P n'
  | .null, h | .bool _, h | .int _, h | .float _, h | .text _, h | .absent, h => h
  | .closure _ _ _ _, h => ⟨Nat.lt_of_lt_of_le h.1 hn, h.2⟩
  | .native _ _ _ _ bound, h => ⟨h.1, FitAll.mono hn bound h.2⟩
  | .list _ items, h => FitAll.mono hn items h

theorem FitAll.mono (hn : n ≤ n') : (vs : List Value) → FitAll P n vs → FitAll P n' vs
  | [], _ => trivial
  | v :: vs, h => ⟨Fits.mono hn v h.1, FitAll.mono hn vs h.2⟩

end

-- The parts of a value fit as the value does.
mutual

theorem Fits.part : (v : Value) → v.Fits P n → ∀ w ∈ v.parts, w.Fits P n
  | .null, h | .bool _, h | .int _, h | .float _, h | .text _, h | .absent, h
  | .closure _ _ _ _, h => List.forall_mem_singleton.2 h
  | .native _ _ _ _ bound, h => List.forall_mem_cons.2 ⟨h, FitAll.part bound h.2⟩
  | .list _ items, h => List.forall_mem_cons.2 ⟨h, FitAll.part items h⟩

theorem FitAll.part : (vs : List Value) → FitAll P n vs → ∀ w ∈ partsAll vs, w.Fits P n
  | [], _ => by simp [partsAll]
  | v :: vs, h => List.forall_mem_append.2 ⟨Fits.part v h.1, FitAll.part vs h.2⟩

end

/-- The natives in the value, also as items of lists and with other natives, are of the set. -/
def UsesOnly (natives : Native → Prop) (v : Value) : Prop :=
  ∀ id name discards code bound, native id name discards code bound ∈ v.parts → natives code

theorem UsesOnly.code {natives : Native → Prop} {id : Nat} {name : String} {discards : Bool} {code : Native}
    {bound : List Value} (h : (native id name discards code bound).UsesOnly natives) : natives code :=
  h id name discards code bound List.mem_cons_self

theorem Fits.usesOnly {v : Value} (h : v.Fits P n) : v.UsesOnly P.native :=
  fun _ _ _ _ _ hpart => (h.part v _ hpart).1

theorem ofLiteral_fits {l : Literal} (h : P.atom (.ofLiteral l)) : (ofLiteral l).Fits P n := by
  cases l <;> exact h

/-- Null may take the place of any value. -/
theorem Fits.orNull {v : Value} (hnull : P.atom .null) (h : v.Fits P n) : v.orNull.Fits P n := by
  cases v <;> first | exact h | exact hnull

theorem Fits.present? {v w : Value} (h : v.Fits P n) (hw : v.present? = some w) : w.Fits P n := by
  cases v <;> simp only [Value.present?, Option.some.injEq, reduceCtorEq] at hw <;> exact hw ▸ h

end Value

/-- A value that may stand in the machine. -/
abbrev Value.Stands (P : Policy) (v : Value) (m : Machine) : Prop := v.Fits P m.heap.size

/-- A value that may stand in the machine, or none. -/
def Value.StandsIfAny (P : Policy) (v? : Option Value) (m : Machine) : Prop :=
  ∀ v, v? = some v → v.Stands P m

theorem Value.standsIfAny_none (P : Policy) (m : Machine) : Value.StandsIfAny P none m := by
  simp [Value.StandsIfAny]

/-- A call of a function with arguments that may stand in a machine with `n` scopes. -/
structure Frame.Fits (P : Policy) (n : Nat) (f : Frame) : Prop where
  func : f.func.Fits P n
  args : ∀ v ∈ f.args, v.Fits P n

theorem Frame.Fits.mono {P : Policy} {n n' : Nat} {f : Frame} (hn : n ≤ n') (h : f.Fits P n) :
    f.Fits P n' where
  func := h.func.mono hn
  args := fun v hv => (h.args v hv).mono hn

/-- A report whose value, if it has one, may stand in the machine. -/
def Report.Stands (P : Policy) (r : Report Value) (m : Machine) : Prop :=
  ∀ v, r.outcome = .ok v → v.Stands P m

/-- An early end that may happen: any failure, and some of the faults. -/
def Stop.Within (P : Policy) : Stop → Prop
  | .failure _ => True
  | .fault f => P.fault f

/-! ### Evaluation -/

/-- What evaluation itself brings in is within the policy: truth values and null, the results of the
operators, the trees of parsed texts, and the faults on the way. -/
structure Policy.Sound (P : Policy) : Prop where
  null : P.atom .null
  bool : ∀ b, P.atom (.bool b)
  exhausted : P.fault .stackExhausted
  result : ∀ {op a b v n}, P.operator op → a.Fits P n → b.Fits P n →
    applyOperator op a b = .ok (some v) → v.Fits P n
  overflow : ∀ {op a b f n}, P.operator op → a.Fits P n → b.Fits P n →
    applyOperator op a b = .error f → P.fault f
  parsed : ∀ {room source p}, Program.parse room source = .ok p → p.Within P
  unparsed : ∀ {room source stop}, Program.parse room source = .error stop → stop.Within P

end Klex
