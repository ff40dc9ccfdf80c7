import Klex.Proofs.Grammar.Accepts

/-!
# Junctions

What comes after a tree, and lists with commas.

* **`Ends`** — what comes after a tree does not continue it.
* **`InList`**, **`Found`** — a list goes on or ends here; the rule for an item accepts it from its
  tokens in such a place.
* **`accepts_commaList`** — **lists are read as they are derived**, with a first item that is missing
  and with a trailing comma, if each of their items is.

At every junction the next token decides.
-/

namespace Klex.Grammar

open Rule

/-! ### What comes after a tree -/

/-- The tokens do not continue a tree that they come after; if it ends with a condition that has no
second branch, they do not begin with one. -/
def Ends (dangling : Bool) (u : List Token) : Prop :=
  ∀ x xs, u = x :: xs → x.kind ≠ .operator ∧ x.kind ≠ .openParen ∧ x.kind ≠ .assign ∧
    (dangling = true → ¬ x.IsWord "else")

/-- The next token is a comma or a closing parenthesis. -/
def InList (u : List Token) : Prop := ∃ x xs, u = x :: xs ∧ (x.kind = .comma ∨ x.kind = .closeParen)

section

variable {dangling : Bool} {x : Token} {xs u : List Token}

theorem Ends.nil : Ends dangling [] := by
  intro x xs hx
  simp at hx

theorem Ends.cons (ho : x.kind ≠ .operator) (hp : x.kind ≠ .openParen) (ha : x.kind ≠ .assign)
    (he : dangling = true → ¬ x.IsWord "else") : Ends dangling (x :: xs) := by
  intro y ys hy
  obtain ⟨rfl, -⟩ := by simpa using hy
  exact ⟨ho, hp, ha, he⟩

/-- A token of these kinds ends whatever stands before it. -/
theorem Ends.of_kind (h : x.kind = .comma ∨ x.kind = .closeParen ∨ x.kind = .closeCurly) :
    Ends dangling (x :: xs) := by
  have hne : ∀ kind, kind ≠ .comma → kind ≠ .closeParen → kind ≠ .closeCurly → x.kind ≠ kind := by
    rintro kind hc hp hb rfl
    rcases h with h | h | h
    · exact hc h
    · exact hp h
    · exact hb h
  refine Ends.cons (hne _ (by decide) (by decide) (by decide))
    (hne _ (by decide) (by decide) (by decide)) (hne _ (by decide) (by decide) (by decide)) ?_
  exact fun _ hw => hne _ (by decide) (by decide) (by decide) hw.1

theorem Ends.of_inList (h : InList u) : Ends dangling u := by
  obtain ⟨x, xs, rfl, hx⟩ := h
  exact Ends.of_kind (hx.imp_right .inl)

/-- What ends a condition without a second branch ends anything. -/
theorem Ends.mono (h : Ends true u) : Ends dangling u := by
  intro x xs hx
  obtain ⟨ho, hp, ha, he⟩ := h x xs hx
  exact ⟨ho, hp, ha, fun _ => he rfl⟩

end

/-! ### Lists with commas -/

/-- The rule accepts the item from its tokens where a list goes on or ends. -/
def Found {α : Type} (item : Rule α) (a : α) (ts : List Token) : Prop :=
  ∀ {c d : Cursor}, Read c ts d → InList d.rest → Accepts item c a d

section

variable {α : Type} {item : Rule α} {D : α → List Token → Prop} {as : List α} {us : List Token}
  {c d : Cursor}

theorem inList_of_sequence (h : Sequence (AfterComma (Found item)) as us) (hr : Read c us d)
    (hd : InList d.rest) : InList c.rest := by
  cases h with
  | nil =>
    obtain rfl := hr.eq_of_nil
    exact hd
  | cons ha hs =>
    cases ha with
    | mk hk ha => exact ⟨_, _, hr.head, .inl hk⟩

theorem accepts_more (hitem : Reads item D) (h : Sequence (AfterComma (Found item)) as us)
    (hr : Read c us d) (hd : InList d.rest) (hstop : Rejects (do let _ ← token .comma; item) d) :
    Accepts (many (do let _ ← token .comma; item)) c as d := by
  induction h generalizing c with
  | nil =>
    obtain rfl := hr.eq_of_nil
    exact .many_nil hstop
  | cons ha hs ih =>
    cases ha with
    | mk hk ha =>
      obtain ⟨c₁, hcomma, hr⟩ := hr.uncons
      obtain ⟨c₂, hts, hus⟩ := hr.split
      have hone : Accepts (do let _ ← token .comma; item) c _ c₂ :=
        (hcomma.token hk).bind (ha hts (inList_of_sequence hs hus hd))
      exact .many_cons hitem.afterComma AfterComma.ne_nil hone (ih hus)

/-- The first item may be missing; then the rule for an item rejects. -/
theorem accepts_separated (hitem : Reads item D)
    (hnone : ∀ {c : Cursor}, InList c.rest → Rejects item c)
    (h : Separated (Found item) as us) (hr : Read c us d) (hd : InList d.rest)
    (hstop : Rejects (do let _ ← token .comma; item) d) :
    ∃ first more e, first.toList ++ more = as ∧ Accepts item.optional c first e ∧
      Accepts (many (do let _ ← token .comma; item)) e more d := by
  cases h with
  | full ha hs =>
    obtain ⟨e, hts, hus⟩ := hr.split
    exact ⟨some _, _, e, rfl, (ha hts (inList_of_sequence hs hus hd)).optional,
      accepts_more hitem hs hus hd hstop⟩
  | bare hs =>
    exact ⟨none, as, c, rfl, (hnone (inList_of_sequence hs hr hd)).optional,
      accepts_more hitem hs hr hd hstop⟩

theorem accepts_commaList (hitem : Reads item D)
    (hnone : ∀ {c : Cursor}, InList c.rest → Rejects item c) {trailing : Bool}
    (h : Listed (Found item) trailing as us) {stop : Token} (hstop : stop.kind = .closeParen)
    (hr : Read c (us ++ [stop]) d) : Accepts (commaList tight item trailing) c as d := by
  rw [commaList_tight]
  -- at the closing parenthesis there is no comma
  have hnoComma : ∀ {e : Cursor}, Read e [stop] d → Rejects (token .comma) e := by
    intro e he
    exact Rejects.token_cons he.head (Token.kind_ne hstop (by decide))
  have hlast : ∀ {e : Cursor}, Read e [stop] d → InList e.rest :=
    fun he => ⟨_, _, he.head, .inr hstop⟩
  cases h with
  | plain hsep =>
    obtain ⟨e, hus, hlt⟩ := hr.split
    obtain ⟨first, more, e₁, rfl, hfirst, hmore⟩ :=
      accepts_separated hitem hnone hsep hus (hlast hlt) (hnoComma hlt).bind
    refine hfirst.bind (hmore.bind ?_)
    cases trailing with
    | false => exact (hlt.token hstop).bind (.pure _)
    | true => exact (hnoComma hlt).optional.bind ((hlt.token hstop).bind (.pure _))
  | trailing hsep hk =>
    obtain ⟨e, hus, hlt⟩ := hr.split
    obtain ⟨e₂, hus, hcomma⟩ := hus.split
    have hafter : Rejects (do let _ ← token .comma; item) e₂ :=
      (hcomma.token hk).bind_rejects (hnone (hlast hlt))
    obtain ⟨first, more, e₁, rfl, hfirst, hmore⟩ :=
      accepts_separated hitem hnone hsep hus ⟨_, _, hcomma.head, .inl hk⟩ hafter
    exact hfirst.bind (hmore.bind
      ((hcomma.token hk).optional.bind ((hlt.token hstop).bind (.pure _))))

end

end Klex.Grammar
