import Klex.Proofs.Grammar.Depth
import Klex.Proofs.Grammar.Derivation

/-!
# What the rules read

The rules of the grammar find only trees that are derived from the tokens read.

* **`Read`** — from one place to another the given tokens are read, and no others.
* **`Reads`** — whatever the rule accepts stands in the given relation to the tokens that it reads.
* **`reads_rules`** — **the rules are sound** with any room: what they accept is derived from the
  tokens that they read.
* **`text_accepted`** — a whole text that is read to the end is derived from its tokens.

The rows here have no layout, and basic expressions are read afresh, so nothing has to be known about
the trail.
-/

namespace Klex.Grammar

open Rule

/-- From one place to another the tokens are read. -/
structure Read (c : Cursor) (ts : List Token) (d : Cursor) : Prop where
  rest : c.rest = ts ++ d.rest
  index : d.index = c.index + ts.length

theorem Read.refl (c : Cursor) : Read c [] c := ⟨rfl, rfl⟩

theorem Read.trans {c d e : Cursor} {ts us : List Token} (h : Read c ts d) (h' : Read d us e) :
    Read c (ts ++ us) e := by
  refine ⟨?_, ?_⟩
  · rw [h.rest, h'.rest, List.append_assoc]
  · rw [h'.index, h.index, List.length_append, Nat.add_assoc]

theorem Read.split {c e : Cursor} {ts us : List Token} (h : Read c (ts ++ us) e) :
    ∃ d, Read c ts d ∧ Read d us e := by
  refine ⟨⟨c.index + ts.length, us ++ e.rest⟩, ⟨?_, rfl⟩, rfl, ?_⟩
  · rw [h.rest, List.append_assoc]
  · rw [h.index, List.length_append, Nat.add_assoc]

theorem Read.uncons {c e : Cursor} {x : Token} {ts : List Token} (h : Read c (x :: ts) e) :
    ∃ d, Read c [x] d ∧ Read d ts e :=
  Read.split h

theorem Read.head {c d : Cursor} {x : Token} {ts : List Token} (h : Read c (x :: ts) d) :
    c.rest = x :: (ts ++ d.rest) := h.rest

theorem Read.eq_of_nil {c d : Cursor} (h : Read c [] d) : c = d := by
  obtain ⟨index, rest⟩ := d
  obtain ⟨hrest, hindex⟩ := h
  obtain rfl : c.rest = rest := hrest
  obtain rfl : index = c.index := hindex
  rfl

/-- What the rule accepts stands in the relation to the tokens that it reads. -/
structure Reads {α : Type} (p : Rule α) (D : α → List Token → Prop) : Prop where
  accepted : ∀ {c d : Cursor} {t u : Trail} {a : α}, p c t = (.accept a d, u) →
    ∃ ts, Read c ts d ∧ D a ts

section

variable {α β : Type} {D : α → List Token → Prop} {F : β → List Token → Prop}

/-! ### Composed rules -/

theorem Reads.mono {p : Rule α} {D' : α → List Token → Prop} (h : Reads p D)
    (hD : ∀ {a ts}, D a ts → D' a ts) : Reads p D' := by
  refine ⟨fun {c d t u a} hp => ?_⟩
  obtain ⟨ts, hr, ha⟩ := h.accepted hp
  exact ⟨ts, hr, hD ha⟩

theorem Reads.pure {a : α} (h : D a []) : Reads (pure a) D := by
  refine ⟨fun {c d t u a'} hp => ?_⟩
  obtain ⟨⟨rfl, rfl⟩, rfl⟩ := by simpa [pure_run] using hp
  exact ⟨[], Read.refl _, h⟩

theorem Reads.tooDeep : Reads (Rule.tooDeep : Rule α) D := by
  refine ⟨fun {c d t u a} hp => ?_⟩
  simp [Rule.tooDeep] at hp

/-- One part after another: what follows is judged with the tokens read so far in front. -/
theorem Reads.bind {p : Rule α} {f : α → Rule β} (hp : Reads p D)
    (hf : ∀ a ts, D a ts → Reads (f a) fun b us => F b (ts ++ us)) : Reads (p >>= f) F := by
  refine ⟨fun {c e t v b} h => ?_⟩
  obtain ⟨a, d, u, h₁, h₂⟩ := bind_accepted h
  obtain ⟨ts, hr, ha⟩ := hp.accepted h₁
  obtain ⟨us, hr', hb⟩ := (hf a ts ha).accepted h₂
  exact ⟨ts ++ us, hr.trans hr', hb⟩

theorem Reads.orElse {p q : Rule α} (hp : Reads p D) (hq : Reads q D) : Reads (p <|> q) D := by
  refine ⟨fun {c d t u a} h => ?_⟩
  rcases hout : p c t with ⟨⟨a', d'⟩ | _ | _, u'⟩
  · rw [orElse_accept hout] at h
    rw [h] at hout
    exact hp.accepted hout
  · rw [orElse_reject hout] at h
    exact hq.accepted h
  · rw [orElse_tooDeep hout] at h
    simp at h

theorem Reads.read (f : Token → Option α) :
    Reads (Rule.read f) fun a ts => ∃ x, f x = some a ∧ ts = [x] := by
  refine ⟨fun {c d t u a} h => ?_⟩
  rcases hrest : c.rest with _ | ⟨x, xs⟩
  · rw [read_nil f t hrest] at h
    simp at h
  · rcases hx : f x with _ | a'
    · rw [read_none t hrest hx] at h
      simp at h
    · rw [read_some t hrest hx] at h
      obtain ⟨⟨rfl, rfl⟩, -⟩ := by simpa using h
      exact ⟨[x], ⟨hrest, rfl⟩, x, hx, rfl⟩

theorem Reads.token (kind : Kind) :
    Reads (Rule.token kind) fun x ts => x.kind = kind ∧ ts = [x] := by
  refine (Reads.read _).mono ?_
  rintro a ts ⟨x, hx, rfl⟩
  obtain ⟨hk, rfl⟩ := by simpa using hx
  exact ⟨hk, rfl⟩

theorem Reads.keyword (text : String) :
    Reads (Rule.keyword text) fun x ts => x.IsWord text ∧ ts = [x] := by
  refine (Reads.read _).mono ?_
  rintro a ts ⟨x, hx, rfl⟩
  obtain ⟨hw, rfl⟩ := by simpa using hx
  exact ⟨hw, rfl⟩

/-- What an optional part comes to: an item, or nothing and no tokens. -/
inductive Perhaps (D : α → List Token → Prop) : Option α → List Token → Prop
  | none : Perhaps D none []
  | some {a : α} {ts : List Token} : D a ts → Perhaps D (some a) ts

theorem Reads.optional {p : Rule α} (hp : Reads p D) : Reads p.optional (Perhaps D) := by
  refine ⟨fun {c d t u a} h => ?_⟩
  rcases hout : p c t with ⟨⟨a', d'⟩ | _ | _, u'⟩
  · rw [optional_accept hout] at h
    obtain ⟨⟨rfl, rfl⟩, -⟩ := by simpa using h
    obtain ⟨ts, hr, ha⟩ := hp.accepted hout
    exact ⟨ts, hr, .some ha⟩
  · rw [optional_reject hout] at h
    obtain ⟨⟨rfl, rfl⟩, -⟩ := by simpa using h
    exact ⟨[], Read.refl _, .none⟩
  · rw [optional_tooDeep hout] at h
    simp at h

theorem Reads.manyUpTo {p : Rule α} (hp : Reads p D) (n : Nat) :
    Reads (Rule.manyUpTo p n) (Sequence D) := by
  induction n with
  | zero => exact Reads.pure .nil
  | succ n ih =>
    rw [manyUpTo_succ]
    refine hp.optional.bind fun first ts hfirst => ?_
    cases hfirst with
    | none => exact Reads.pure .nil
    | some ha =>
      refine ih.bind fun more us hmore => Reads.pure ?_
      rw [List.append_nil]
      exact .cons ha hmore

theorem Reads.many {p : Rule α} (hp : Reads p D) : Reads (Rule.many p) (Sequence D) :=
  ⟨fun h => (hp.manyUpTo _).accepted h⟩

/-- A row of items stands at the offset of the token that follows the start. -/
theorem placed_accepted {p : Rule α} (hp : Reads p D) {c d : Cursor} {t u : Trail}
    {pos : Option Nat} {items : List α} (h : placed p c t = (.accept (pos, items) d, u)) :
    pos = c.pos? ∧ ∃ ts, Read c ts d ∧ Sequence D items ts := by
  obtain ⟨pos', c', t', hpos, h⟩ := bind_accepted h
  obtain ⟨⟨rfl, rfl⟩, rfl⟩ := by simpa [Rule.pos?] using hpos
  obtain ⟨items', d', u', hmany, h⟩ := bind_accepted h
  obtain ⟨⟨⟨rfl, rfl⟩, rfl⟩, -⟩ := by simpa [pure_run] using h
  exact ⟨rfl, hp.many.accepted hmany⟩

theorem Reads.placed {p : Rule α} (hp : Reads p D) :
    Reads (Rule.placed p) fun body ts => Sequence D body.2 ts :=
  ⟨fun h => (placed_accepted hp h).2⟩

theorem Reads.afterComma {item : Rule α} (h : Reads item D) :
    Reads (do let _ ← Rule.token .comma; item) (AfterComma D) := by
  refine (Reads.token .comma).bind fun comma ts hcomma => ?_
  obtain ⟨hk, rfl⟩ := hcomma
  exact h.mono fun ha => .mk hk ha

/-- A row of items with commas, up to the closing parenthesis. -/
theorem Reads.commaList {item : Rule α} (h : Reads item D) (trailing : Bool) :
    Reads (Grammar.commaList tight item trailing) fun as ts =>
      ∃ us stop, Listed D trailing as us ∧ stop.kind = .closeParen ∧ ts = us ++ [stop] := by
  rw [commaList_tight]
  refine h.optional.bind fun first ts hfirst => h.afterComma.many.bind fun more us hmore => ?_
  have hsep : Separated D (first.toList ++ more) (ts ++ us) := by
    cases hfirst with
    | none => exact .bare hmore
    | some ha => exact .full ha hmore
  -- the closing parenthesis, whatever stands before it
  have hclose : ∀ vs, Listed D trailing (first.toList ++ more) vs → Reads (do
      let _ ← Rule.token .closeParen
      return first.toList ++ more) fun as ws => ∃ us stop, Listed D trailing as us ∧
        stop.kind = .closeParen ∧ vs ++ ws = us ++ [stop] := by
    intro vs hvs
    refine (Reads.token .closeParen).bind fun stop ws hstop => ?_
    obtain ⟨hk, rfl⟩ := hstop
    exact Reads.pure ⟨vs, stop, hvs, hk, rfl⟩
  cases trailing with
  | false =>
    refine (hclose (ts ++ us) (.plain hsep)).mono fun hws => ?_
    rwa [← List.append_assoc]
  | true =>
    refine (Reads.token .comma).optional.bind fun comma vs hcomma => ?_
    have hlisted : Listed D true (first.toList ++ more) (ts ++ us ++ vs) := by
      cases hcomma with
      | none =>
        rw [List.append_nil]
        exact .plain hsep
      | some hc =>
        obtain ⟨hk, rfl⟩ := hc
        exact .trailing hsep hk
    refine (hclose _ hlisted).mono fun hws => ?_
    rwa [← List.append_assoc, ← List.append_assoc]

end

/-! ### The rules of the grammar -/

/-- What the rules accept is derived from the tokens that they read. -/
abbrev Rules.Derive (r : Rules) : Prop := r.All (Reads · Expr.Yields) (Reads · Stmt.Yields)

section

variable {r : Rules}

theorem reads_parameter : Reads parameter Named := by
  refine (Reads.read _).mono ?_
  rintro name ts ⟨x, hx, rfl⟩
  obtain ⟨hk, rfl⟩ := by simpa using hx
  exact .mk (Token.isName hk)

theorem reads_basic (h : r.Derive) : Reads (basic tight r) Expr.Yields := by
  refine Reads.orElse ((Reads.read atom?).mono ?_) ?_
  · rintro e ts ⟨x, hx, rfl⟩
    unfold atom? at hx
    split at hx
    · next hl =>
      obtain rfl := Option.some.inj hx
      exact .literal hl
    · split at hx
      · next hk =>
        obtain rfl := Option.some.inj hx
        exact .name (Token.isName hk)
      · simp at hx
  · rw [group_tight]
    refine (Reads.token .openParen).bind fun start _ hstart => ?_
    obtain ⟨ho, rfl⟩ := hstart
    refine (h.expression 6).bind fun inner ts hinner => (Reads.token .closeParen).bind fun stop _ hstop => ?_
    obtain ⟨hc, rfl⟩ := hstop
    exact Reads.pure (.group ho hinner hc)

theorem reads_negation (h : r.Derive) : Reads (negation tight r) Expr.Yields := by
  rw [negation_tight]
  refine (Reads.token .negate).bind fun bang _ hbang => ?_
  obtain ⟨hb, rfl⟩ := hbang
  refine (h.expression 2).bind fun operand ts hoperand => Reads.pure ?_
  simpa using Expr.Yields.negate hb hoperand

theorem reads_binaryRest (h : r.Derive) {left : Expr} {ts : List Token} (hleft : left.Yields ts) :
    Reads (binaryRest tight r left) fun e us => e.Yields (ts ++ us) := by
  rw [binaryRest_tight]
  refine (Reads.token .operator).bind fun op _ hop => ?_
  obtain ⟨ho, rfl⟩ := hop
  refine (h.expression 2).bind fun right us hright => Reads.pure ?_
  simpa using Expr.Yields.binary hleft (Token.isOperator ho) hright

/-- A name reads as itself, so what stands before a parenthesis is the keyword or a callee. -/
theorem reads_callRest (h : r.Derive) {callee : Expr} {ts : List Token}
    (hcallee : callee.Yields ts) :
    Reads (callRest tight r callee) fun e us => e.Yields (ts ++ us) := by
  rw [callRest_tight]
  refine (Reads.token .openParen).bind fun start _ hstart => ?_
  obtain ⟨ho, rfl⟩ := hstart
  split
  · next pos =>
    refine (reads_parameter.commaList true).bind fun params _ hparams => ?_
    obtain ⟨us, stop, hlisted, hc, rfl⟩ := hparams
    refine (h.statement 3).bind fun body vs hbody => Reads.pure ?_
    generalize hname : Expr.name pos "function" = word at hcallee
    cases hcallee with
    | name hw =>
      injection hname with hpos hid
      subst hpos hid
      simpa using Expr.Yields.function hw ho hlisted hc hbody
    | _ => exact absurd hname (by simp)
  · refine ((h.expression 4).commaList false).bind fun args _ hargs => ?_
    obtain ⟨us, stop, hlisted, hc, rfl⟩ := hargs
    refine Reads.pure ?_
    cases hlisted with
    | plain hsep => simpa using Expr.Yields.call hcallee ho hsep hc

theorem reads_expressionFrom (h : r.Derive) :
    Reads (expressionFrom tight r (basic tight r)) Expr.Yields := by
  refine (reads_negation h).orElse ((reads_basic h).bind fun left ts hleft => ?_)
  refine (reads_binaryRest h hleft).orElse ((reads_callRest h hleft).orElse ?_)
  exact Reads.pure (by simpa using hleft)

theorem reads_block (h : r.Derive) : Reads (block tight r) Stmt.Yields := by
  rw [block_tight]
  refine ⟨fun {c e t v s} hrun => ?_⟩
  obtain ⟨start, c₁, t₁, hopen, hrun⟩ := bind_accepted hrun
  obtain ⟨⟨pos, body⟩, c₂, t₂, hbody, hrun⟩ := bind_accepted hrun
  obtain ⟨stop, c₃, t₃, hclose, hrun⟩ := bind_accepted hrun
  obtain ⟨⟨rfl, rfl⟩, -⟩ := by simpa [pure_run] using hrun
  obtain ⟨_, hr₁, ho, rfl⟩ := (Reads.token .openCurly).accepted hopen
  obtain ⟨rfl, ts, hr₂, hseq⟩ := placed_accepted (h.statement 4) hbody
  obtain ⟨_, hr₃, hc, rfl⟩ := (Reads.token .closeCurly).accepted hclose
  refine ⟨_, hr₁.trans (hr₂.trans hr₃), ?_⟩
  -- the token after the opening bracket is the first of the body or the closing bracket
  have hpos : c₁.pos? = (ts ++ [stop]).head?.map Token.pos := by
    rw [Cursor.pos?, hr₂.rest, hr₃.rest, ← List.append_assoc]
    cases ts <;> rfl
  rw [hpos]
  exact .block ho hseq hc

theorem reads_elseBranch (h : r.Derive) :
    Reads (elseBranch tight r) (Perhaps fun no ts => ∃ other vs, Token.IsWord other "else" ∧
      Stmt.Yields no vs ∧ ts = other :: vs) := by
  rw [elseBranch_tight]
  refine (Reads.keyword "else").optional.bind fun found _ hfound => ?_
  cases hfound with
  | none => exact Reads.pure .none
  | some hother =>
    obtain ⟨hl, rfl⟩ := hother
    refine (h.statement 2).bind fun no vs hno => Reads.pure (.some ⟨_, vs, hl, hno, ?_⟩)
    rw [List.append_nil, List.singleton_append]

theorem reads_condition (h : r.Derive) : Reads (condition tight r) Stmt.Yields := by
  rw [condition_tight]
  refine (Reads.keyword "if").bind fun word _ hword => ?_
  obtain ⟨hw, rfl⟩ := hword
  refine (Reads.token .openParen).bind fun start _ hstart => ?_
  obtain ⟨ho, rfl⟩ := hstart
  refine (h.expression 2).bind fun test ts htest => (Reads.token .closeParen).bind fun stop _ hstop => ?_
  obtain ⟨hc, rfl⟩ := hstop
  refine (h.statement 2).bind fun yes us hyes => (reads_elseBranch h).bind fun no _ hno => Reads.pure ?_
  cases hno with
  | none => simpa using Stmt.Yields.cond hw ho htest hc hyes
  | some hother =>
    obtain ⟨other, vs, hl, hno, rfl⟩ := hother
    simpa using Stmt.Yields.condElse hw ho htest hc hyes hl hno

theorem reads_statementFrom (h : r.Derive) : Reads (statementFrom tight r) Stmt.Yields := by
  have hret : Reads (returning tight r) Stmt.Yields := by
    rw [returning_tight]
    refine (Reads.keyword "return").bind fun word _ hword => ?_
    obtain ⟨hw, rfl⟩ := hword
    refine (h.expression 2).bind fun value ts hvalue => Reads.pure ?_
    simpa using Stmt.Yields.ret hw hvalue
  have hassign : Reads (assignment tight r) Stmt.Yields := by
    rw [assignment_tight]
    refine (Reads.token .identifier).bind fun target _ htarget => ?_
    obtain ⟨hx, rfl⟩ := htarget
    refine (Reads.token .assign).bind fun eq _ heq => ?_
    obtain ⟨hq, rfl⟩ := heq
    refine (h.expression 2).bind fun value ts hvalue => Reads.pure ?_
    simpa using Stmt.Yields.assign (Token.isName hx) hq hvalue
  rw [statementFrom_tight]
  refine (reads_block h).orElse <| (reads_condition h).orElse <| hret.orElse <|
    hassign.orElse <| (h.expression 1).bind fun e ts hexpr => Reads.pure ?_
  rw [List.append_nil]
  exact .expr hexpr

/-- **The rules are sound**: what they accept is derived from the tokens that they read. -/
theorem reads_rules (room : Nat) : (rules tight .plain room).Derive := by
  induction room with
  | zero => exact ⟨fun _ => Reads.tooDeep, fun _ => Reads.tooDeep⟩
  | succ room ih => exact ih.push (reads_expressionFrom ih) (reads_statementFrom ih)

theorem reads_endless : (endless tight).Derive :=
  ⟨fun _ => ⟨fun {c _ _ _ _} h => ((reads_rules (ample c)).expression 0).accepted h⟩,
    fun _ => ⟨fun {c _ _ _ _} h => ((reads_rules (ample c)).statement 0).accepted h⟩⟩

/-- A whole text that is read to the end is derived from its tokens. -/
theorem text_accepted (h : r.Derive) {row : List Token} {p : Program} {d : Cursor} {t u : Trail}
    (hrun : text tight r (.start row) t = (.accept p d, u)) (hd : d.rest = []) : p.Yields row := by
  rw [text_tight] at hrun
  obtain ⟨⟨pos, items⟩, c, t₁, hbody, hrun⟩ := bind_accepted hrun
  obtain ⟨⟨rfl, rfl⟩, -⟩ := by simpa [pure_run] using hrun
  obtain ⟨rfl, ts, hr, hseq⟩ := placed_accepted (h.statement 2) hbody
  have hrow : row = ts := by
    have := hr.rest
    rwa [hd, List.append_nil] at this
  subst hrow
  exact ⟨hseq, rfl⟩

end

end Klex.Grammar
