import Klex.Proofs.Grammar.Accepts
import Klex.Proofs.Grammar.Prefix

/-!
# Completing a row that was cut off

Where a run looks behind the end of a row, tokens can be put there that make the rule accept.

* **`Starts`** — some tokens make the rule accept from scratch.
* **`Completes`** — between a rule that is run on a row and a rule that is run on longer rows.  A run
  that does not look behind the end is followed on every longer row; for a run that does, there are
  tokens that, put behind the end, make the second rule accept up to whatever comes after them.
* **`Completes.bind`**, **`Completes.orElse`**, **`Completes.many`**, … — the ways of making rules keep
  this; what has to come after a part is a condition `F` on the tokens behind it.
* **`Ready`** — both together, as the parts of a longer rule need them.

The first part of a run that looks behind the end decides: the alternatives tried before it reject on
the longer row as well, since they have not looked behind the end.
-/

namespace Klex.Grammar

open Rule

/-- The place, with more tokens at the end of the row. -/
def Cursor.extend (c : Cursor) (s : List Token) : Cursor := ⟨c.index, c.rest ++ s⟩

/-- Any tokens may come next. -/
def Anything (_ : List Token) : Prop := True

/-- The row is at its end, or a bracket closes. -/
def Closing (u : List Token) : Prop :=
  ∀ x xs, u = x :: xs → x.kind = .closeParen ∨ x.kind = .closeCurly

/-- Some tokens in front of a row with `F` make the rule accept up to that row, and together with it
they have `G`. -/
def Starts {α : Type} (F G : List Token → Prop) (q : Rule α) : Prop :=
  ∃ w a, ∀ u, F u → G (w ++ u) ∧ ∀ i, Accepts q ⟨i, w ++ u⟩ a ⟨i + w.length, u⟩

/-- A run of the first rule on the row is followed by the second rule on longer rows, or can be
completed in front of a row with `F`. -/
structure Completes {α : Type} (row : List Token) (F : List Token → Prop) (p q : Rule α) : Prop where
  left : Uniform p
  right : Uniform q
  follows : ∀ s, Follows row (row ++ s) row.length p q
  complete : ∀ {c : Cursor} {reply : Reply α} {m : Nat}, c.In row → Runs p c reply m →
    row.length ≤ m → ∃ w a, c.rest ++ w ≠ [] ∧
      ∀ u, F u → Accepts q (c.extend (w ++ u)) a ⟨row.length + w.length, u⟩

section

variable {α β : Type} {F G : List Token → Prop}

/-! ### From scratch -/

theorem Starts.pure (a : α) (h : ∀ {u}, F u → G u) : Starts F G (pure a : Rule α) :=
  ⟨[], a, fun _ hu => ⟨h hu, fun _ => .pure a⟩⟩

theorem Starts.read {f : Token → Option α} {x : Token} {a : α} (hx : f x = some a)
    (h : ∀ u, G (x :: u)) : Starts F G (Rule.read f) :=
  ⟨[x], a, fun u _ => ⟨h u, fun _ => .read rfl hx⟩⟩

theorem Starts.token {x : Token} {kind : Kind} (hx : x.kind = kind) (h : ∀ u, G (x :: u)) :
    Starts F G (Rule.token kind) :=
  Starts.read (x := x) (a := x) (by rw [if_pos hx]) h

theorem Starts.bind {H : List Token → Prop} {q : Rule α} {g : α → Rule β} (h : Starts H G q)
    (hg : ∀ a, Starts F H (g a)) : Starts F G (q >>= g) := by
  obtain ⟨w, a, hw⟩ := h
  obtain ⟨w', b, hw'⟩ := hg a
  refine ⟨w ++ w', b, fun u hu => ?_⟩
  obtain ⟨hH, hb⟩ := hw' u hu
  obtain ⟨hG, ha⟩ := hw (w' ++ u) hH
  rw [List.append_assoc, List.length_append]
  refine ⟨hG, fun i => (ha i).bind ?_⟩
  rw [← Nat.add_assoc]
  exact hb (i + w.length)

/-! ### Runs that do not look behind the end -/

variable {row : List Token} {c d : Cursor} {m : Nat}

theorem Agree.extend (row s : List Token) : Agree row (row ++ s) row.length where
  left := Nat.le_refl _
  right := by
    rw [List.length_append]
    exact Nat.le_add_right _ _
  take := by rw [List.take_length, List.take_left]

theorem Beside.extend (hc : c.In row) (s : List Token) :
    Beside row (row ++ s) row.length c (c.extend s) where
  left := hc
  right := by
    refine ⟨?_, ?_⟩
    · show c.rest ++ s = (row ++ s).drop c.index
      rw [List.drop_append_of_le_length hc.bound, hc.rest]
    · rw [List.length_append]
      exact Nat.le_trans hc.bound (Nat.le_add_right _ _)
  index := rfl
  bound := hc.bound

/-- There is only one place beside a given one. -/
theorem Beside.eq_extend {s : List Token} (h : Beside row (row ++ s) row.length c d) :
    d = c.extend s := by
  obtain ⟨index, rest⟩ := d
  have hindex : c.index = index := h.index
  have hrest : rest = (row ++ s).drop index := h.right.rest
  rw [← hindex, List.drop_append_of_le_length h.left.bound, ← h.left.rest] at hrest
  rw [← hindex, hrest]
  rfl

theorem Completes.accepts_extend {p q : Rule α} (h : Completes row F p q) {a : α} (hc : c.In row)
    (hrun : Runs p c (.accept a d) m) (hm : m < row.length) :
    d.In row ∧ ∀ s, Accepts q (c.extend s) a (d.extend s) := by
  have hd : d.In row :=
    ((h.follows []).steady.accepted hc (Trail.sane_empty row) (hrun .empty)).2.2.2
  refine ⟨hd, fun s => ?_⟩
  have hfar : (Trail.empty.note m).furthest < row.length := by simpa using hm
  obtain ⟨e, v, hq, hde, -⟩ := (h.follows s).accept (Beside.extend hc s) (Trail.sane_empty row)
    (Trail.Beside.empty _ _ _) (hrun .empty) hfar hd.bound
  obtain rfl := hde.eq_extend
  exact h.right.accepts hq

theorem Completes.rejects_extend {p q : Rule α} (h : Completes row F p q) (hc : c.In row)
    (hrun : Runs p c .reject m) (hm : m < row.length) (s : List Token) :
    Rejects q (c.extend s) := by
  have hfar : (Trail.empty.note m).furthest < row.length := by simpa using hm
  obtain ⟨v, hq, -⟩ := (h.follows s).reject (Beside.extend hc s) (Trail.sane_empty row)
    (Trail.Beside.empty _ _ _) (hrun .empty) hfar
  exact h.right.rejects hq

/-- What is left at a later place is a part of what was left before it. -/
theorem Cursor.In.append_ne_nil (hc : c.In row) (hd : d.In row) (hcd : c.index ≤ d.index)
    {w : List Token} (h : d.rest ++ w ≠ []) : c.rest ++ w ≠ [] := by
  have hclen := hc.rest_length
  have hdlen := hd.rest_length
  rw [← List.length_pos_iff, List.length_append] at h ⊢
  omega

/-! ### Composed rules -/

theorem Completes.tooDeep (hrow : 0 < row.length) {q : Rule α} (hq : Uniform q) :
    Completes row F Rule.tooDeep q where
  left := fun _ => ⟨_, _, .tooDeep⟩
  right := hq
  follows := fun _ => .tooDeep q
  complete := by
    intro c reply m hc hrun hm
    obtain ⟨-, rfl⟩ := hrun.unique .tooDeep
    exact absurd hrow (Nat.not_lt.2 hm)

theorem Completes.pure (hrow : 0 < row.length) (a : α) :
    Completes row F (pure a : Rule α) (pure a) where
  left := .pure a
  right := .pure a
  follows := fun _ => .pure a
  complete := by
    intro c reply m hc hrun hm
    obtain ⟨-, rfl⟩ := hrun.unique (.pure a)
    exact absurd hrow (Nat.not_lt.2 hm)

/-- A token is missing only at the end; a token that fits is put there. -/
theorem Completes.read {f : Token → Option α} {x : Token} {a : α}
    (hx : f x = some a) : Completes row F (Rule.read f) (Rule.read f) where
  left := .read f
  right := .read f
  follows := fun s => .read (Agree.extend row s) f
  complete := by
    intro c reply m hc hrun hm
    have hlength := hc.rest_length
    rcases hrest : c.rest with _ | ⟨y, ys⟩
    · refine ⟨[x], a, by simp, fun u _ => ?_⟩
      have hindex : c.index = row.length := by simpa [hrest] using hlength
      have hext : (c.extend ([x] ++ u)).rest = x :: u := by simp [Cursor.extend, hrest]
      have haccept := Accepts.read hext hx
      rwa [show (c.extend ([x] ++ u)).index = row.length from hindex] at haccept
    · -- a token that is there does not make the run look behind the end
      exfalso
      have hm' : m ≤ c.index := by
        rcases hy : f y with _ | b
        · obtain ⟨-, rfl⟩ := hrun.unique (.read_none fun z zs hz => by
            obtain ⟨rfl, -⟩ := by simpa [hrest] using hz
            exact hy)
          exact Nat.le_refl _
        · obtain ⟨-, rfl⟩ := hrun.unique (.read_some hrest hy)
          exact Nat.zero_le _
      rw [hrest, List.length_cons] at hlength
      omega

theorem Completes.token {kind : Kind} {x : Token} (hx : x.kind = kind) :
    Completes row F (Rule.token kind) (Rule.token kind) :=
  .read (x := x) (a := x) (by rw [if_pos hx])

/-- **One part after another**: the part that looks behind the end is completed, and the parts after
it are added from scratch. -/
theorem Completes.bind {p q : Rule α} {f g : α → Rule β} (h : Completes row G p q)
    (hf : ∀ a, Completes row F (f a) (g a)) (hg : ∀ a, Starts F G (g a)) :
    Completes row F (p >>= f) (q >>= g) where
  left := h.left.bind fun a => (hf a).left
  right := h.right.bind fun a => (hf a).right
  follows := fun s => (h.follows s).bind fun a => (hf a).follows s
  complete := by
    intro c reply m hc hrun hm
    obtain ⟨reply₁, m₁, hp⟩ := h.left c
    rcases Nat.lt_or_ge m₁ row.length with hlt | hge
    · rcases reply₁ with ⟨a, d⟩ | _ | _
      · obtain ⟨reply₂, m₂, hfa⟩ := (hf a).left d
        obtain ⟨-, rfl⟩ := hrun.unique (hp.bind_accept hfa)
        obtain ⟨hd, hq⟩ := h.accepts_extend hc hp hlt
        obtain ⟨w, b, hne, hw⟩ := (hf a).complete hd hfa (by omega)
        refine ⟨w, b, ?_, fun u hu => (hq (w ++ u)).bind (hw u hu)⟩
        have hback := ((h.follows []).steady.accepted hc (Trail.sane_empty row) (hp .empty)).2.2.1
        exact hc.append_ne_nil hd hback hne
      · obtain ⟨-, rfl⟩ := hrun.unique hp.bind_reject
        omega
      · obtain ⟨-, rfl⟩ := hrun.unique hp.bind_tooDeep
        omega
    · obtain ⟨w, a, hne, hw⟩ := h.complete hc hp hge
      obtain ⟨w', b, hw'⟩ := hg a
      refine ⟨w ++ w', b, ?_, fun u hu => ?_⟩
      · rw [← List.append_assoc]
        exact List.append_ne_nil_of_left_ne_nil hne w'
      · obtain ⟨hG, hb⟩ := hw' u hu
        rw [List.append_assoc, List.length_append, ← Nat.add_assoc]
        exact (hw (w' ++ u) hG).bind (hb _)

theorem Completes.orElse {p q p' q' : Rule α} (h : Completes row F p q)
    (h' : Completes row F p' q') : Completes row F (p <|> p') (q <|> q') where
  left := h.left.orElse h'.left
  right := h.right.orElse h'.right
  follows := fun s => (h.follows s).orElse (h'.follows s)
  complete := by
    intro c reply m hc hrun hm
    obtain ⟨reply₁, m₁, hp⟩ := h.left c
    rcases Nat.lt_or_ge m₁ row.length with hlt | hge
    · rcases reply₁ with ⟨a, d⟩ | _ | _
      · obtain ⟨-, rfl⟩ := hrun.unique hp.orElse_accept
        omega
      · obtain ⟨reply₂, m₂, hp'⟩ := h'.left c
        obtain ⟨-, rfl⟩ := hrun.unique (hp.orElse_reject hp')
        obtain ⟨w, a, hne, hw⟩ := h'.complete hc hp' (by omega)
        exact ⟨w, a, hne, fun u hu =>
          (h.rejects_extend hc hp hlt (w ++ u)).orElse_accepts (hw u hu)⟩
      · obtain ⟨-, rfl⟩ := hrun.unique hp.orElse_tooDeep
        omega
    · obtain ⟨w, a, hne, hw⟩ := h.complete hc hp hge
      exact ⟨w, a, hne, fun u hu => (hw u hu).orElse⟩

theorem Completes.optional {p q : Rule α} (h : Completes row F p q) :
    Completes row F p.optional q.optional where
  left := h.left.optional
  right := h.right.optional
  follows := fun s => (h.follows s).optional
  complete := by
    intro c reply m hc hrun hm
    obtain ⟨reply₁, m₁, hp⟩ := h.left c
    have hsame : m₁ = m := by
      rcases reply₁ with ⟨a, d⟩ | _ | _
      · exact (hp.optional_accept.unique hrun).2
      · exact (hp.optional_reject.unique hrun).2
      · exact (hp.optional_tooDeep.unique hrun).2
    obtain ⟨w, a, hne, hw⟩ := h.complete hc hp (by omega)
    exact ⟨w, some a, hne, fun u hu => (hw u hu).optional⟩

/-- The item that looks behind the end is completed and is the last one, since `F` makes the rule for
an item reject. -/
theorem Completes.manyUpTo (hrow : 0 < row.length) {D : α → List Token → Prop} {p q : Rule α}
    (hp : Steady row 1 p) (hq : Reads q D) (hD : ∀ {a ts}, D a ts → ts ≠ [])
    (hstop : ∀ {c : Cursor}, F c.rest → Rejects q c) (h : Completes row F p q) :
    ∀ {k : Nat} {c : Cursor} {reply : Reply (List α)} {m : Nat}, c.In row →
      Runs (Rule.manyUpTo p k) c reply m → row.length ≤ m → ∃ w items, c.rest ++ w ≠ [] ∧
        ∀ u, F u → Accepts (Rule.many q) (c.extend (w ++ u)) items ⟨row.length + w.length, u⟩ := by
  intro k
  induction k with
  | zero =>
    intro c reply m hc hrun hm
    obtain ⟨-, rfl⟩ := hrun.unique (.pure [])
    exact absurd hrow (Nat.not_lt.2 hm)
  | succ k ih =>
    intro c reply m hc hrun hm
    obtain ⟨reply₁, m₁, hp₁⟩ := h.left c
    rcases Nat.lt_or_ge m₁ row.length with hlt | hge
    · rcases reply₁ with ⟨a, d⟩ | _ | _
      · obtain ⟨reply₂, m₂, hmore⟩ := h.left.manyUpTo k d
        obtain ⟨reply₃, hrun₃⟩ := hp₁.manyUpTo_accept hmore
        obtain ⟨-, rfl⟩ := hrun.unique hrun₃
        obtain ⟨hd, hqa⟩ := h.accepts_extend hc hp₁ hlt
        obtain ⟨w, items, hne, hw⟩ := ih hd hmore (by omega)
        have hback := (hp.accepted hc (Trail.sane_empty row) (hp₁ .empty)).2.2.1
        exact ⟨w, a :: items, hc.append_ne_nil hd (Nat.le_of_succ_le hback) hne,
          fun u hu => Accepts.many_cons hq hD (hqa _) (hw u hu)⟩
      · obtain ⟨-, rfl⟩ := hrun.unique (hp₁.manyUpTo_reject k)
        omega
      · obtain ⟨-, rfl⟩ := hrun.unique (hp₁.manyUpTo_tooDeep k)
        omega
    · obtain ⟨w, a, hne, hw⟩ := h.complete hc hp₁ hge
      exact ⟨w, [a], hne, fun u hu => Accepts.many_cons hq hD (hw u hu) (.many_nil (hstop hu))⟩

theorem Completes.many (hrow : 0 < row.length) {D : α → List Token → Prop} {p q : Rule α}
    (hp : Steady row 1 p) (hq : Reads q D) (hD : ∀ {a ts}, D a ts → ts ≠ [])
    (hstop : ∀ {c : Cursor}, F c.rest → Rejects q c) (h : Completes row F p q) :
    Completes row F (Rule.many p) (Rule.many q) where
  left := h.left.many
  right := h.right.many
  follows := fun s => (h.follows s).many (Agree.extend row s) hp
  complete := by
    intro c reply m hc hrun hm
    exact h.manyUpTo hrow hp hq hD hstop (k := c.rest.length + 1) hc hrun hm

/-- The first token of the completed row is there before anything comes after it. -/
theorem Completes.placed (hrow : 0 < row.length) {D : α → List Token → Prop} {p q : Rule α}
    (hp : Steady row 1 p) (hq : Reads q D) (hD : ∀ {a ts}, D a ts → ts ≠ [])
    (hstop : ∀ {c : Cursor}, F c.rest → Rejects q c) (h : Completes row F p q) :
    Completes row F (Rule.placed p) (Rule.placed q) where
  left := h.left.placed
  right := h.right.placed
  follows := fun s => (h.follows s).placed (Agree.extend row s) hp
  complete := by
    intro c reply m hc hrun hm
    obtain ⟨reply₁, m₁, hmany⟩ := h.left.many c
    have hm₁ : row.length ≤ m₁ := by
      rcases reply₁ with ⟨items, d⟩ | _ | _
      · obtain ⟨-, rfl⟩ := hrun.unique
          (Runs.pos?.bind_accept (hmany.bind_accept (.pure (c.pos?, items))))
        omega
      · obtain ⟨-, rfl⟩ := hrun.unique (Runs.pos?.bind_accept hmany.bind_reject)
        omega
      · obtain ⟨-, rfl⟩ := hrun.unique (Runs.pos?.bind_accept hmany.bind_tooDeep)
        omega
    obtain ⟨w, items, hne, hw⟩ := (h.many hrow hp hq hD hstop).complete hc hmany hm₁
    refine ⟨w, ((c.rest ++ w).head?.map Token.pos, items), hne, fun u hu => ?_⟩
    have hpos : (c.extend (w ++ u)).pos? = (c.rest ++ w).head?.map Token.pos := by
      obtain ⟨x, xs, hx⟩ := List.exists_cons_of_ne_nil hne
      rw [Cursor.pos?, Cursor.extend, ← List.append_assoc, hx]
      rfl
    rw [← hpos]
    exact (hw u hu).placed

/-! ### Rules that are ready for anything -/

/-- The second rule accepts from scratch, and completes the runs of the first one. -/
structure Ready (row : List Token) (F G : List Token → Prop) (p q : Rule α) : Prop where
  completes : Completes row F p q
  starts : Starts F G q

theorem Ready.pure (hrow : 0 < row.length) (a : α) (h : ∀ {u}, F u → G u) :
    Ready row F G (pure a : Rule α) (pure a) :=
  ⟨.pure hrow a, .pure a h⟩

theorem Ready.read {f : Token → Option α} {x : Token} {a : α} (hx : f x = some a)
    (h : ∀ u, G (x :: u)) : Ready row F G (Rule.read f) (Rule.read f) :=
  ⟨.read hx, .read hx h⟩

theorem Ready.token {x : Token} {kind : Kind} (hx : x.kind = kind) (h : ∀ u, G (x :: u)) :
    Ready row F G (Rule.token kind) (Rule.token kind) :=
  ⟨.token hx, .token hx h⟩

theorem Ready.keyword {x : Token} {text : String} (hx : x.IsWord text) (h : ∀ u, G (x :: u)) :
    Ready row F G (Rule.keyword text) (Rule.keyword text) :=
  .read (x := x) (a := x) (by simp [hx.1, hx.2]) h

theorem Ready.bind {H : List Token → Prop} {p q : Rule α} {f g : α → Rule β}
    (h : Ready row H G p q) (hf : ∀ a, Ready row F H (f a) (g a)) :
    Ready row F G (p >>= f) (q >>= g) where
  completes := h.completes.bind (fun a => (hf a).completes) fun a => (hf a).starts
  starts := h.starts.bind fun a => (hf a).starts

/-- From scratch, the first alternative is as good as any. -/
theorem Ready.orElse {p q p' q' : Rule α} (h : Ready row F G p q) (h' : Completes row F p' q') :
    Ready row F G (p <|> p') (q <|> q') where
  completes := h.completes.orElse h'
  starts := by
    obtain ⟨w, a, hw⟩ := h.starts
    exact ⟨w, a, fun u hu => ⟨(hw u hu).1, fun i => ((hw u hu).2 i).orElse⟩⟩

theorem Ready.optional {p q : Rule α} (h : Ready row F G p q) :
    Ready row F G p.optional q.optional where
  completes := h.completes.optional
  starts := by
    obtain ⟨w, a, hw⟩ := h.starts
    exact ⟨w, some a, fun u hu => ⟨(hw u hu).1, fun i => ((hw u hu).2 i).optional⟩⟩

end

end Klex.Grammar
