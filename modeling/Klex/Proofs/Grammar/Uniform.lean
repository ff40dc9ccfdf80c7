import Klex.Proofs.Grammar.Congruence

/-!
# Rules that do not look at the trail

* **`Runs`** — the rule comes to a reply and notes an index, whatever the trail says.
* **`Uniform`** — at every place the rule runs so.
* **`uniform_rules`** — rules that read basic expressions afresh are uniform, with any room.
-/

namespace Klex.Grammar

open Rule

/-- At the place the rule comes to the reply and notes the index, whatever the trail. -/
def Runs {α : Type} (p : Rule α) (c : Cursor) (reply : Reply α) (m : Nat) : Prop :=
  ∀ t, p c t = (reply, t.note m)

/-- At every place the rule comes to some reply and notes some index, whatever the trail. -/
def Uniform {α : Type} (p : Rule α) : Prop := ∀ c, ∃ reply m, Runs p c reply m

section

variable {α β : Type} {c d : Cursor} {m k : Nat}

theorem Runs.unique {p : Rule α} {reply reply' : Reply α} (h : Runs p c reply m)
    (h' : Runs p c reply' k) : reply = reply' ∧ m = k := by
  have heq := (h .empty).symm.trans (h' .empty)
  refine ⟨congrArg Prod.fst heq, ?_⟩
  have hm := congrArg (fun out => out.2.furthest) heq
  simpa using hm

theorem Runs.pure (a : α) : Runs (pure a) c (.accept a c) 0 := by
  intro t
  rw [pure_run, Trail.note_zero]

theorem Runs.tooDeep : Runs (Rule.tooDeep : Rule α) c .tooDeep 0 := by
  intro t
  rw [Trail.note_zero]
  rfl

theorem Runs.pos? : Runs Rule.pos? c (.accept c.pos? c) 0 := by
  intro t
  rw [Trail.note_zero]
  rfl

theorem Runs.read_some {f : Token → Option α} {x : Token} {xs : List Token} {a : α}
    (h : c.rest = x :: xs) (hx : f x = some a) :
    Runs (read f) c (.accept a ⟨c.index + 1, xs⟩) 0 := by
  intro t
  rw [Rule.read_some t h hx, Trail.note_zero]

theorem Runs.read_none {f : Token → Option α} (h : ∀ x xs, c.rest = x :: xs → f x = none) :
    Runs (read f) c .reject c.index := by
  intro t
  rcases hrest : c.rest with _ | ⟨x, xs⟩
  · exact read_nil f t hrest
  · exact Rule.read_none t hrest (h x xs hrest)

theorem Runs.bind_accept {p : Rule α} {f : α → Rule β} {a : α} {reply : Reply β}
    (h : Runs p c (.accept a d) m) (hf : Runs (f a) d reply k) :
    Runs (p >>= f) c reply (max m k) := by
  intro t
  rw [Rule.bind_accept (h t), hf, Trail.note_note]

theorem Runs.bind_reject {p : Rule α} {f : α → Rule β} (h : Runs p c .reject m) :
    Runs (p >>= f) c .reject m := fun t => Rule.bind_reject (h t)

theorem Runs.bind_tooDeep {p : Rule α} {f : α → Rule β} (h : Runs p c .tooDeep m) :
    Runs (p >>= f) c .tooDeep m := fun t => Rule.bind_tooDeep (h t)

theorem Runs.orElse_accept {p q : Rule α} {a : α} (h : Runs p c (.accept a d) m) :
    Runs (p <|> q) c (.accept a d) m := fun t => Rule.orElse_accept (h t)

theorem Runs.orElse_reject {p q : Rule α} {reply : Reply α} (h : Runs p c .reject m)
    (hq : Runs q c reply k) : Runs (p <|> q) c reply (max m k) := by
  intro t
  rw [Rule.orElse_reject (h t), hq, Trail.note_note]

theorem Runs.orElse_tooDeep {p q : Rule α} (h : Runs p c .tooDeep m) :
    Runs (p <|> q) c .tooDeep m := fun t => Rule.orElse_tooDeep (h t)

theorem Runs.optional_accept {p : Rule α} {a : α} (h : Runs p c (.accept a d) m) :
    Runs p.optional c (.accept (some a) d) m := fun t => Rule.optional_accept (h t)

theorem Runs.optional_reject {p : Rule α} (h : Runs p c .reject m) :
    Runs p.optional c (.accept none c) m := fun t => Rule.optional_reject (h t)

theorem Runs.optional_tooDeep {p : Rule α} (h : Runs p c .tooDeep m) :
    Runs p.optional c .tooDeep m := fun t => Rule.optional_tooDeep (h t)

/-- One more item before the others. -/
theorem Runs.manyUpTo_accept {p : Rule α} {a : α} {reply : Reply (List α)} {n k : Nat}
    (h : Runs p c (.accept a d) m) (h' : Runs (manyUpTo p n) d reply k) :
    ∃ reply', Runs (manyUpTo p (n + 1)) c reply' (max m k) := by
  have hcons : ∃ reply', Runs (manyUpTo p n >>= fun more => Pure.pure (a :: more)) d reply' k := by
    rcases reply with ⟨more, e⟩ | _ | _
    · have hrun := h'.bind_accept (f := fun more => Pure.pure (a :: more)) (.pure _)
      rw [Nat.max_zero] at hrun
      exact ⟨_, hrun⟩
    · exact ⟨_, h'.bind_reject⟩
    · exact ⟨_, h'.bind_tooDeep⟩
  obtain ⟨reply', hrun⟩ := hcons
  refine ⟨reply', fun t => ?_⟩
  rw [Rule.manyUpTo_accept (h t), hrun, Trail.note_note]

theorem Runs.manyUpTo_reject {p : Rule α} (h : Runs p c .reject m) (n : Nat) :
    Runs (manyUpTo p (n + 1)) c (.accept [] c) m :=
  fun t => Rule.manyUpTo_reject (h t) n

theorem Runs.manyUpTo_tooDeep {p : Rule α} (h : Runs p c .tooDeep m) (n : Nat) :
    Runs (manyUpTo p (n + 1)) c .tooDeep m :=
  fun t => Rule.manyUpTo_tooDeep (h t) n

theorem Uniform.pure (a : α) : Uniform (pure a : Rule α) := fun _ => ⟨_, _, .pure a⟩

theorem Uniform.read (f : Token → Option α) : Uniform (read f) := by
  intro c
  rcases hrest : c.rest with _ | ⟨x, xs⟩
  · exact ⟨_, _, .read_none (by simp [hrest])⟩
  · rcases hx : f x with _ | a
    · refine ⟨_, _, .read_none ?_⟩
      intro y ys hy
      obtain ⟨rfl, -⟩ := by simpa [hrest] using hy
      exact hx
    · exact ⟨_, _, .read_some hrest hx⟩

theorem Uniform.bind {p : Rule α} {f : α → Rule β} (hp : Uniform p) (hf : ∀ a, Uniform (f a)) :
    Uniform (p >>= f) := by
  intro c
  obtain ⟨⟨a, d⟩ | _ | _, m, h⟩ := hp c
  · obtain ⟨reply, k, hk⟩ := hf a d
    exact ⟨reply, _, h.bind_accept hk⟩
  · exact ⟨_, _, h.bind_reject⟩
  · exact ⟨_, _, h.bind_tooDeep⟩

theorem Uniform.orElse {p q : Rule α} (hp : Uniform p) (hq : Uniform q) : Uniform (p <|> q) := by
  intro c
  obtain ⟨⟨a, d⟩ | _ | _, m, h⟩ := hp c
  · exact ⟨_, _, h.orElse_accept⟩
  · obtain ⟨reply, k, hk⟩ := hq c
    exact ⟨reply, _, h.orElse_reject hk⟩
  · exact ⟨_, _, h.orElse_tooDeep⟩

theorem Uniform.optional {p : Rule α} (hp : Uniform p) : Uniform p.optional := by
  intro c
  obtain ⟨⟨a, d⟩ | _ | _, m, h⟩ := hp c
  · exact ⟨_, _, h.optional_accept⟩
  · exact ⟨_, _, h.optional_reject⟩
  · exact ⟨_, _, h.optional_tooDeep⟩

theorem Uniform.manyUpTo {p : Rule α} (hp : Uniform p) (n : Nat) : Uniform (manyUpTo p n) :=
  manyUpTo_congr (R := fun {_} p _ => Uniform p) .pure .bind .optional (q := p) hp n

theorem Uniform.many {p : Rule α} (hp : Uniform p) : Uniform (Rule.many p) :=
  fun c => hp.manyUpTo (c.rest.length + 1) c

theorem Uniform.placed {p : Rule α} (hp : Uniform p) : Uniform (Rule.placed p) :=
  Uniform.bind (fun _ => ⟨_, _, .pos?⟩) fun _ => hp.many.bind fun _ => .pure _

end

theorem uniform_congruence (row : List Token) : Congruence row (fun {_} p _ => Uniform p) where
  pure := .pure
  read := .read
  bind := .bind
  orElse := .orElse
  optional := .optional
  many := fun _ h => h.many
  placed := fun _ h => h.placed

theorem Passes.uniform {gap : Rule Unit} (hg : Passes gap) : Uniform gap := by
  intro c
  obtain ⟨d, hd⟩ := hg.accepts c
  refine ⟨.accept () d, 0, fun t => ?_⟩
  rw [hd, Trail.note_zero]

/-- Rules that read basic expressions afresh do not look at the trail. -/
theorem uniform_rules {gap : Rule Unit} (hg : Passes gap) (room : Nat) :
    (rules gap .plain room).All Uniform Uniform := by
  have hrel : (rules gap .plain room).Rel (fun p _ => Uniform p) (fun p _ => Uniform p)
      (rules gap .plain room) :=
    (uniform_congruence []).rules (hg.steady []) hg.uniform .plain nofun
      (fun _ => ⟨_, _, .tooDeep⟩) room
  exact ⟨hrel.expression, hrel.statement⟩

end Klex.Grammar
