import Klex.Grammar

/-!
# Runs of rules

How a run of a composed rule is made of the runs of its parts.

* **`Rule.bind_accept`**, **`Rule.bind_reject`**, **`Rule.orElse_reject`**, … — one step of a
  composed rule, given what its first part came to.
* **`Rule.placed`** — a row of items with the offset of the token that it starts at.
* **`Rules.All`**, **`Rules.Rel`** — properties of the rules that refer to each other, and relations
  between two such pairs; they carry over to rules one call above (`Rules.All.push`, `Rules.Rel.push`).
* **`Rule.tight`** — no layout between the symbols; the rules then ask for one symbol right after the
  other (`group_tight`, `condition_tight`, …).
* **`Trail.note_note`** — notes add up to one note of the greatest index.

Rules form a lawful monad, so the parts of a rule may be regrouped.
-/

namespace Klex.Grammar

/-! ### Notes on a trail -/

namespace Trail

@[simp] theorem furthest_empty : Trail.empty.furthest = 0 := rfl

@[simp] theorem furthest_note (t : Trail) (n : Nat) : (t.note n).furthest = max t.furthest n := rfl

@[simp] theorem note_zero (t : Trail) : t.note 0 = t := by
  cases t
  simp [note]

theorem note_note (t : Trail) (m n : Nat) : (t.note m).note n = t.note (max m n) := by
  cases t
  simp [note, Nat.max_assoc]

end Trail

namespace Rule

variable {α β γ : Type}

/-! ### One part after another -/

theorem pure_run (a : α) (c : Cursor) (t : Trail) :
    (pure a : Rule α) c t = (.accept a c, t) := rfl

theorem bind_accept {p : Rule α} {f : α → Rule β} {c d : Cursor} {t u : Trail} {a : α}
    (h : p c t = (.accept a d, u)) : (p >>= f) c t = f a d u := by
  show Rule.bind p f c t = f a d u
  rw [Rule.bind, h]

theorem bind_reject {p : Rule α} {f : α → Rule β} {c : Cursor} {t u : Trail}
    (h : p c t = (.reject, u)) : (p >>= f) c t = (.reject, u) := by
  show Rule.bind p f c t = _
  rw [Rule.bind, h]

theorem bind_tooDeep {p : Rule α} {f : α → Rule β} {c : Cursor} {t u : Trail}
    (h : p c t = (.tooDeep, u)) : (p >>= f) c t = (.tooDeep, u) := by
  show Rule.bind p f c t = _
  rw [Rule.bind, h]

/-- What is accepted in the end is accepted part after part. -/
theorem bind_accepted {p : Rule α} {f : α → Rule β} {c e : Cursor} {t v : Trail} {b : β}
    (h : (p >>= f) c t = (.accept b e, v)) :
    ∃ a d u, p c t = (.accept a d, u) ∧ f a d u = (.accept b e, v) := by
  rcases hp : p c t with ⟨⟨a, d⟩ | _ | _, u⟩
  · rw [bind_accept hp] at h
    exact ⟨a, d, u, rfl, h⟩
  · rw [bind_reject hp] at h
    simp at h
  · rw [bind_tooDeep hp] at h
    simp at h

instance : LawfulMonad Rule :=
  LawfulMonad.mk' Rule
    (fun p => by
      funext c t
      show Rule.bind p (fun a => Rule.pure (id a)) c t = p c t
      unfold Rule.bind
      rcases p c t with ⟨_ | _ | _, u⟩ <;> rfl)
    (fun _ _ => rfl)
    (fun p f g => by
      funext c t
      show Rule.bind (Rule.bind p f) g c t = Rule.bind p (fun a => Rule.bind (f a) g) c t
      unfold Rule.bind
      rcases p c t with ⟨_ | _ | _, u⟩ <;> rfl)

/-! ### One alternative after another -/

theorem orElse_accept {p q : Rule α} {c d : Cursor} {t u : Trail} {a : α}
    (h : p c t = (.accept a d, u)) : (p <|> q) c t = (.accept a d, u) := by
  show Rule.orElse p (fun _ => q) c t = _
  rw [Rule.orElse, h]

theorem orElse_reject {p q : Rule α} {c : Cursor} {t u : Trail}
    (h : p c t = (.reject, u)) : (p <|> q) c t = q c u := by
  show Rule.orElse p (fun _ => q) c t = _
  rw [Rule.orElse, h]

theorem orElse_tooDeep {p q : Rule α} {c : Cursor} {t u : Trail}
    (h : p c t = (.tooDeep, u)) : (p <|> q) c t = (.tooDeep, u) := by
  show Rule.orElse p (fun _ => q) c t = _
  rw [Rule.orElse, h]

theorem optional_accept {p : Rule α} {c d : Cursor} {t u : Trail} {a : α}
    (h : p c t = (.accept a d, u)) : p.optional c t = (.accept (some a) d, u) := by
  rw [optional, h]

theorem optional_reject {p : Rule α} {c : Cursor} {t u : Trail}
    (h : p c t = (.reject, u)) : p.optional c t = (.accept none c, u) := by
  rw [optional, h]

theorem optional_tooDeep {p : Rule α} {c : Cursor} {t u : Trail}
    (h : p c t = (.tooDeep, u)) : p.optional c t = (.tooDeep, u) := by
  rw [optional, h]

/-! ### Reading a token -/

theorem read_nil (f : Token → Option α) {c : Cursor} (t : Trail) (h : c.rest = []) :
    read f c t = (.reject, t.note c.index) := by
  rw [read, h]

theorem read_some {f : Token → Option α} {c : Cursor} (t : Trail) {x : Token} {xs : List Token}
    {a : α} (h : c.rest = x :: xs) (hx : f x = some a) :
    read f c t = (.accept a ⟨c.index + 1, xs⟩, t) := by
  simp only [read, h, hx]

theorem read_none {f : Token → Option α} {c : Cursor} (t : Trail) {x : Token} {xs : List Token}
    (h : c.rest = x :: xs) (hx : f x = none) :
    read f c t = (.reject, t.note c.index) := by
  simp only [read, h, hx]

/-! ### Rows of items -/

/-- A row of items and the offset of the token that the row starts at. -/
def placed (p : Rule α) : Rule (Option Nat × List α) := do
  let pos ← pos?
  let items ← many p
  return (pos, items)

theorem manyUpTo_zero (p : Rule α) : manyUpTo p 0 = pure [] := rfl

theorem manyUpTo_succ (p : Rule α) (n : Nat) :
    manyUpTo p (n + 1) = (p.optional >>= fun first =>
      match first with
      | none => pure []
      | some a => manyUpTo p n >>= fun more => pure (a :: more)) := rfl

theorem manyUpTo_accept {p : Rule α} {c d : Cursor} {t u : Trail} {a : α}
    (h : p c t = (.accept a d, u)) (n : Nat) :
    manyUpTo p (n + 1) c t = (manyUpTo p n >>= fun more => pure (a :: more)) d u := by
  rw [manyUpTo_succ, bind_accept (optional_accept h)]

theorem manyUpTo_reject {p : Rule α} {c : Cursor} {t u : Trail} (h : p c t = (.reject, u))
    (n : Nat) : manyUpTo p (n + 1) c t = (.accept [] c, u) := by
  rw [manyUpTo_succ, bind_accept (optional_reject h)]
  rfl

theorem manyUpTo_tooDeep {p : Rule α} {c : Cursor} {t u : Trail} (h : p c t = (.tooDeep, u))
    (n : Nat) : manyUpTo p (n + 1) c t = (.tooDeep, u) := by
  rw [manyUpTo_succ, bind_tooDeep (optional_tooDeep h)]

/-- Repetition never rejects. -/
theorem many_ne_reject (p : Rule α) (c : Cursor) (t u : Trail) : many p c t ≠ (.reject, u) := by
  have hupTo : ∀ (k : Nat) (c : Cursor) (t u : Trail), Rule.manyUpTo p k c t ≠ (.reject, u) := by
    intro k
    induction k with
    | zero =>
      intro c t u h
      simp [manyUpTo_zero, pure_run] at h
    | succ k ih =>
      intro c t u h
      rcases hp : p c t with ⟨⟨a, d⟩ | _ | _, v⟩
      · rw [manyUpTo_accept hp] at h
        rcases hmore : Rule.manyUpTo p k d v with ⟨⟨more, e⟩ | _ | _, w⟩
        · rw [bind_accept hmore] at h
          simp [pure_run] at h
        · exact ih d v w hmore
        · rw [bind_tooDeep hmore] at h
          simp at h
      · simp [manyUpTo_reject hp] at h
      · simp [manyUpTo_tooDeep hp] at h
  exact hupTo _ c t u

end Rule

open Rule

/-! ### Pairs of rules -/

/-- All rules for expressions have the one property and all rules for statements the other, however many
calls away they are. -/
structure Rules.All (P : Rule Expr → Prop) (Q : Rule Stmt → Prop) (r : Rules) : Prop where
  expression : ∀ calls, P (r.expression calls)
  statement : ∀ calls, Q (r.statement calls)

/-- Rules of two grammars stand in the relations, each to the one that is as many calls away. -/
structure Rules.Rel (P : Rule Expr → Rule Expr → Prop) (Q : Rule Stmt → Rule Stmt → Prop)
    (r s : Rules) : Prop where
  expression : ∀ calls, P (r.expression calls) (s.expression calls)
  statement : ∀ calls, Q (r.statement calls) (s.statement calls)

theorem Rules.All.push {P : Rule Expr → Prop} {Q : Rule Stmt → Prop} {r : Rules} (h : r.All P Q)
    {e : Rule Expr} {s : Rule Stmt} (he : P e) (hs : Q s) : (r.push e s).All P Q where
  expression
    | 0 => he
    | calls + 1 => h.expression calls
  statement
    | 0 => hs
    | calls + 1 => h.statement calls

theorem Rules.Rel.push {P : Rule Expr → Rule Expr → Prop} {Q : Rule Stmt → Rule Stmt → Prop}
    {r r' : Rules} (h : r.Rel P Q r') {e e' : Rule Expr} {s s' : Rule Stmt} (he : P e e')
    (hs : Q s s') : (r.push e s).Rel P Q (r'.push e' s') where
  expression
    | 0 => he
    | calls + 1 => h.expression calls
  statement
    | 0 => hs
    | calls + 1 => h.statement calls

/-! ### Rows without layout -/

/-- Nothing stands between the symbols. -/
def Rule.tight : Rule Unit := pure ()

section

variable {α : Type} (r : Rules)

theorem commaList_tight (item : Rule α) (trailing : Bool) :
    commaList tight item trailing = (do
      let first ← item.optional
      let more ← many (do let _ ← token .comma; item)
      if trailing then
        let _ ← (token .comma).optional
      let _ ← token .closeParen
      return first.toList ++ more) := rfl

theorem group_tight : group tight r = (do
    let start ← token .openParen
    let inner ← r.expression 6
    let _ ← token .closeParen
    return .group start.pos inner) := rfl

theorem negation_tight : negation tight r = (do
    let bang ← token .negate
    let operand ← r.expression 2
    return .negate bang.pos operand) := rfl

theorem binaryRest_tight (left : Expr) : binaryRest tight r left = (do
    let op ← token .operator
    let right ← r.expression 2
    return .binary left.pos op.name left right) := rfl

theorem callRest_tight (callee : Expr) : callRest tight r callee = (do
    let _ ← token .openParen
    match callee with
    | .name pos "function" => functionRest tight r pos
    | _ => argumentsRest tight r callee) := rfl

theorem block_tight : block tight r = (do
    let _ ← token .openCurly
    let body ← placed (r.statement 4)
    let _ ← token .closeCurly
    return .block body.1 body.2) := rfl

theorem elseBranch_tight : elseBranch tight r = (do
    match ← (keyword "else").optional with
    | none => return none
    | some _ => return some (← r.statement 2)) := rfl

theorem condition_tight : condition tight r = (do
    let start ← keyword "if"
    let _ ← token .openParen
    let test ← r.expression 2
    let _ ← token .closeParen
    let yes ← r.statement 2
    let no ← elseBranch tight r
    return .cond start.pos test yes no) := rfl

theorem returning_tight : returning tight r = (do
    let start ← keyword "return"
    let value ← r.expression 2
    return .ret start.pos value) := rfl

theorem assignment_tight : assignment tight r = (do
    let target ← token .identifier
    let _ ← token .assign
    let value ← r.expression 2
    return .assign target.pos target.name value) := rfl

theorem statementFrom_tight : statementFrom tight r = bareStatement tight r :=
  bind_pure (bareStatement tight r)

theorem text_tight : text tight r = (do
    let body ← placed (r.statement 2)
    return ⟨body.1, body.2⟩) := rfl

end

end Klex.Grammar
