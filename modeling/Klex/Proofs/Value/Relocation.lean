import Klex.Operator

/-!
# Values with other offsets

A function carries the tree of its body, and the nodes of the tree carry offsets.  Nothing that a
script can do with a value depends on them.

* **`Relocation`** — a change of offsets, all through a tree and of nothing else.
* **`Value.relocate`** — the change in the bodies of all functions in a value.
* **`applyOperator_relocate`** — **operators give the same result on relocated operands**; so do the
  text forms (`Value.display_relocate`, `Value.toText_relocate`) and the equality of the language
  (`Value.same_relocate`).
-/

namespace Klex

/-- A change of the offsets in trees, of nodes by `offset` and of blocks by `place`. -/
structure Relocation where
  offset : Nat → Nat
  place : Option Nat → Option Nat
  expr : Expr → Expr
  stmt : Stmt → Stmt
  literal : ∀ pos value, expr (.literal pos value) = .literal (offset pos) value
  name : ∀ pos id, expr (.name pos id) = .name (offset pos) id
  group : ∀ pos inner, expr (.group pos inner) = .group (offset pos) (expr inner)
  negate : ∀ pos operand, expr (.negate pos operand) = .negate (offset pos) (expr operand)
  binary : ∀ pos op left right,
    expr (.binary pos op left right) = .binary (offset pos) op (expr left) (expr right)
  call : ∀ pos callee args,
    expr (.call pos callee args) = .call (offset pos) (expr callee) (args.map expr)
  function : ∀ pos params body,
    expr (.function pos params body) = .function (offset pos) params (stmt body)
  single : ∀ e, stmt (.expr e) = .expr (expr e)
  block : ∀ pos body, stmt (.block pos body) = .block (place pos) (body.map stmt)
  ret : ∀ pos value, stmt (.ret pos value) = .ret (offset pos) (expr value)
  assign : ∀ pos target value,
    stmt (.assign pos target value) = .assign (offset pos) target (expr value)
  cond : ∀ pos test yes no,
    stmt (.cond pos test yes no) = .cond (offset pos) (expr test) (stmt yes) (no.map stmt)

/-- The change that leaves all offsets as they are. -/
def Relocation.keep : Relocation where
  offset := id
  place := id
  expr := id
  stmt := id
  literal _ _ := rfl
  name _ _ := rfl
  group _ _ := rfl
  negate _ _ := rfl
  binary _ _ _ _ := rfl
  call _ _ args := by rw [List.map_id]; rfl
  function _ _ _ := rfl
  single _ := rfl
  block _ body := by rw [List.map_id]; rfl
  ret _ _ := rfl
  assign _ _ _ := rfl
  cond _ _ _ no := by rw [Option.map_id]; rfl

namespace Value

mutual

/-- The value with other offsets in the functions that it holds. -/
def relocate (ρ : Relocation) : Value → Value
  | closure id params body scope => closure id params (ρ.stmt body) scope
  | native id name discards code bound => native id name discards code (relocateAll ρ bound)
  | list id items => list id (relocateAll ρ items)
  | v => v

/-- The values with other offsets. -/
def relocateAll (ρ : Relocation) : List Value → List Value
  | [] => []
  | v :: vs => relocate ρ v :: relocateAll ρ vs

end

variable {ρ : Relocation}

theorem relocateAll_eq_map (vs : List Value) : relocateAll ρ vs = vs.map (relocate ρ) := by
  induction vs with
  | nil => rfl
  | cons v vs ih => rw [relocateAll, List.map_cons, ih]

mutual

theorem relocate_keep : ∀ v : Value, v.relocate .keep = v
  | null | bool _ | int _ | float _ | text _ | absent => rfl
  | closure _ _ _ _ => rfl
  | native _ _ _ _ bound => by rw [relocate, relocateAll_keep bound]
  | list _ items => by rw [relocate, relocateAll_keep items]

theorem relocateAll_keep : ∀ vs : List Value, relocateAll .keep vs = vs
  | [] => rfl
  | v :: vs => by rw [relocateAll, relocate_keep v, relocateAll_keep vs]

end

theorem map_relocate_keep (vs : List Value) : vs.map (relocate .keep) = vs := by
  rw [← relocateAll_eq_map, relocateAll_keep]

/-! ### What does not depend on offsets -/

@[simp] theorem relocate_ofLiteral (l : Literal) : (ofLiteral l).relocate ρ = ofLiteral l := by
  cases l <;> rfl

@[simp] theorem callableId?_relocate (v : Value) : (v.relocate ρ).callableId? = v.callableId? := by
  cases v <;> rfl

@[simp] theorem isCallable_relocate (v : Value) : (v.relocate ρ).isCallable = v.isCallable := by
  rw [isCallable, isCallable, callableId?_relocate]

@[simp] theorem isTruthy_relocate (v : Value) : (v.relocate ρ).isTruthy = v.isTruthy := by
  cases v <;> rfl

@[simp] theorem isText_relocate (v : Value) : (v.relocate ρ).isText = v.isText := by
  cases v <;> rfl

@[simp] theorem typeName_relocate (v : Value) : (v.relocate ρ).typeName = v.typeName := by
  cases v <;> rfl

@[simp] theorem toFloat?_relocate (v : Value) : (v.relocate ρ).toFloat? = v.toFloat? := by
  cases v <;> rfl

@[simp] theorem toNumeric?_relocate (v : Value) : (v.relocate ρ).toNumeric? = v.toNumeric? := by
  cases v <;> rfl

theorem present?_relocate (v : Value) : (v.relocate ρ).present? = v.present?.map (relocate ρ) := by
  cases v <;> rfl

theorem orNull_relocate (v : Value) : (v.relocate ρ).orNull = v.orNull.relocate ρ := by
  cases v <;> rfl

mutual

theorem hostForm_relocate : ∀ v : Value, (v.relocate ρ).hostForm = v.hostForm
  | null | bool _ | int _ | float _ | text _ | absent => rfl
  | closure _ _ _ _ => rfl
  | native _ _ _ _ _ => by rw [relocate, hostForm, hostForm]
  | list _ items => by rw [relocate, hostForm, hostForm, hostForms_relocate items]

theorem hostForms_relocate : ∀ vs : List Value, hostForms (relocateAll ρ vs) = hostForms vs
  | [] => rfl
  | v :: vs => by rw [relocateAll, hostForms, hostForms, hostForm_relocate v, hostForms_relocate vs]

end

@[simp] theorem display_relocate (v : Value) : (v.relocate ρ).display = v.display := by
  have hform := hostForm_relocate (ρ := ρ) v
  cases v <;> first | rfl | exact hform

@[simp] theorem toText_relocate (v : Value) : (v.relocate ρ).toText = v.toText := by
  have hform := display_relocate (ρ := ρ) v
  cases v <;> first | rfl | exact hform

/-! ### Equality -/

mutual

theorem alike_relocate : ∀ a b : Value, (a.relocate ρ).alike (b.relocate ρ) = a.alike b
  | list _ items, b => by
    cases b with
    | list _ items' => rw [relocate, relocate, alike, alike, alikeAll_relocate items items']
    | _ => rfl
  | null, b | bool _, b | int _, b | float _, b | text _, b | absent, b => by cases b <;> rfl
  | closure _ _ _ _, b => by cases b <;> rfl
  | native _ _ _ _ _, b => by cases b <;> rfl

theorem alikeAll_relocate : ∀ as bs : List Value,
    alikeAll (relocateAll ρ as) (relocateAll ρ bs) = alikeAll as bs
  | [], [] => rfl
  | [], _ :: _ => rfl
  | _ :: _, [] => rfl
  | a :: as, b :: bs => by
    rw [relocateAll, relocateAll, alikeAll, alikeAll, alike_relocate a b, alikeAll_relocate as bs]

end

/-- Functions are the same by their identity, which offsets do not touch. -/
@[simp] theorem same_relocate (a b : Value) : (a.relocate ρ).same (b.relocate ρ) = a.same b := by
  have halike := alike_relocate (ρ := ρ) a b
  unfold same
  rw [isCallable_relocate, isCallable_relocate, callableId?_relocate, callableId?_relocate]
  by_cases hcallable : (a.isCallable || b.isCallable) = true
  · rw [if_pos hcallable, if_pos hcallable]
  · rw [if_neg hcallable, if_neg hcallable]
    cases a <;> cases b <;> first | rfl | exact halike

end Value

/-! ### Operators -/

section

variable {ρ : Relocation}

theorem Operator.onNumbers_relocate (f : Float → Float → Value) (a b : Value) :
    onNumbers f (a.relocate ρ) (b.relocate ρ) = onNumbers f a b := by
  rw [onNumbers, onNumbers, Value.toFloat?_relocate, Value.toFloat?_relocate]

/-- **Operators give the same result on relocated operands.** -/
theorem applyOperator_relocate (op : String) (a b : Value) :
    applyOperator op (a.relocate ρ) (b.relocate ρ) = applyOperator op a b := by
  rw [applyOperator, applyOperator]
  cases Operator.ofSymbol? op with
  | none => rfl
  | some o => cases o <;> simp [Operator.apply, Operator.onNumbers_relocate]

end

end Klex
