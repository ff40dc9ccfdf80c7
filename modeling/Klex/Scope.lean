import Klex.Value

/-!
# Scopes

Names are bound in scopes, and scopes form chains.

* **`Bindings`** — names and their values in the order in which they were first bound.
* **`Scope`** — bindings, the scope that encloses them, and whether they belong to a function call.
* **`Heap`** — all scopes made so far, by number.
* **`Heap.chain`** — a scope, the scope around it, and so on outward.
* **`Heap.owner?`** — the nearest scope of a chain that binds a name.
* **`Heap.lookup?`**, **`Heap.define`**, **`Heap.assign`**, **`Heap.visibleNames`** — what scripts do
  with scopes.

A scope encloses only scopes made after it, so no chain is longer than the number of its first scope
and one.
-/

namespace Klex

/-- Names and their values, in the order of their first binding. -/
abbrev Bindings := List (String × Value)

namespace Bindings

/-- The bound names. -/
def names (b : Bindings) : List String := b.map Prod.fst

/-- The value of a name. -/
def get? (b : Bindings) (name : String) : Option Value := b.lookup name

/-- Binds a name.  A name that was bound keeps its place; a new one goes to the end. -/
def put : Bindings → String → Value → Bindings
  | [], name, v => [(name, v)]
  | (key, old) :: rest, name, v =>
    if key = name then (key, v) :: rest else (key, old) :: put rest name v

/-- A name that was just bound has its new value. -/
theorem get?_put_self (b : Bindings) (name : String) (v : Value) :
    get? (put b name v) name = some v := by
  induction b with
  | nil => simp [put, get?]
  | cons p rest ih =>
    obtain ⟨key, old⟩ := p
    by_cases h : key = name
    · simp [put, get?, h]
    · have : (name == key) = false := by simpa using Ne.symm h
      simpa [put, get?, h, List.lookup_cons, this] using ih

/-- Binding a name leaves the values of the others. -/
theorem get?_put_of_ne {b : Bindings} {name other : String} (v : Value) (h : other ≠ name) :
    get? (put b name v) other = get? b other := by
  induction b with
  | nil => simp [put, get?, List.lookup_cons, beq_false_of_ne h]
  | cons p rest ih =>
    obtain ⟨key, old⟩ := p
    by_cases hk : key = name
    · subst hk
      simp [put, get?, List.lookup_cons, beq_false_of_ne h]
    · by_cases ho : other = key
      · subst ho
        simp [put, get?, hk]
      · simpa [put, get?, hk, List.lookup_cons, beq_false_of_ne ho] using ih

/-- Binding keeps the order of the names and adds a new one at the end. -/
theorem names_put (b : Bindings) (name : String) (v : Value) :
    names (put b name v) = if name ∈ names b then names b else names b ++ [name] := by
  induction b with
  | nil => simp [put, names]
  | cons p rest ih =>
    obtain ⟨key, old⟩ := p
    by_cases hk : key = name
    · simp [put, names, hk]
    · have hn : ¬ name = key := fun e => hk e.symm
      simp only [names, put, hk, if_false, List.map_cons, List.mem_cons, hn, false_or] at ih ⊢
      rw [ih]
      by_cases hm : name ∈ rest.map Prod.fst <;> simp [hm]

end Bindings

/-- A place where names are bound. -/
structure Scope where
  bindings : Bindings
  parent : Option ScopeId
  /-- Whether the scope was made for a function call. -/
  boundary : Bool

/-- A scope in one line, for messages to the developer.  What encloses it is not shown further. -/
def Scope.describe (s : Scope) : String :=
  "<Scope" ++ (if s.boundary then " fn" else "") ++ " bindings=["
    ++ ", ".intercalate (Bindings.names s.bindings) ++ "]"
    ++ (if s.parent.isSome then ", parent=#ID" else "") ++ ">"

/-- All scopes, numbered in the order in which they were made. -/
structure Heap where
  scopes : Array Scope

namespace Heap

/-- No scopes. -/
def empty : Heap := ⟨#[]⟩

/-- Makes a scope without bindings. -/
def alloc (h : Heap) (parent : Option ScopeId) (boundary : Bool) : ScopeId × Heap :=
  (h.scopes.size, ⟨h.scopes.push ⟨[], parent, boundary⟩⟩)

/-- The bindings of a scope. -/
def bindings (h : Heap) (s : ScopeId) : Bindings :=
  match h.scopes[s]? with
  | some scope => scope.bindings
  | none => []

/-- The scope around a scope. -/
def parent? (h : Heap) (s : ScopeId) : Option ScopeId := h.scopes[s]?.bind Scope.parent

/-- The first `n` scopes of a chain. -/
def chainUpTo (h : Heap) : Nat → ScopeId → List ScopeId
  | 0, _ => []
  | n + 1, s =>
    s :: match h.parent? s with
      | some p => chainUpTo h n p
      | none => []

/-- A scope and the scopes around it, innermost first. -/
def chain (h : Heap) (s : ScopeId) : List ScopeId := h.chainUpTo (s + 1) s

/-- Whether a scope itself binds a name. -/
def binds (h : Heap) (name : String) (s : ScopeId) : Bool :=
  (Bindings.get? (h.bindings s) name).isSome

/-- The nearest scope that binds a name. -/
def owner? (h : Heap) (s : ScopeId) (name : String) : Option ScopeId :=
  (h.chain s).find? (h.binds name)

/-- The value of a name, seen from a scope. -/
def lookup? (h : Heap) (s : ScopeId) (name : String) : Option Value :=
  (h.owner? s name).bind fun o => Bindings.get? (h.bindings o) name

/-- Binds a name in a scope, whatever the scopes around it bind. -/
def define (h : Heap) (s : ScopeId) (name : String) (v : Value) : Heap :=
  ⟨h.scopes.modify s fun scope => { scope with bindings := Bindings.put scope.bindings name v }⟩

/-- Binds a name in the nearest scope that binds it, or else in the given one. -/
def assign (h : Heap) (s : ScopeId) (name : String) (v : Value) : Heap :=
  h.define ((h.owner? s name).getD s) name v

/-- Binds several names in a scope, one after the other. -/
def defineAll (h : Heap) (s : ScopeId) (pairs : List (String × Value)) : Heap :=
  pairs.foldl (fun h (name, v) => h.define s name v) h

/-- The names of a row, each at its first place only. -/
def firsts : List String → List String
  | [] => []
  | name :: rest => name :: (firsts rest).filter (· != name)

/-- The names that can be seen from a scope, innermost first. -/
def visibleNames (h : Heap) (s : ScopeId) : List String :=
  firsts ((h.chain s).flatMap fun o => Bindings.names (h.bindings o))

end Heap

end Klex
