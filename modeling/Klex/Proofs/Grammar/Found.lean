import Klex.Proofs.Grammar.Junction
import Klex.Proofs.Tree.Clarity

/-!
# Finding trees

How the rules find a tree in its tokens, if they find its parts.

* **`First`** — the first token of an expression, and what can come next to it.
* **`ExprFound`**, **`StmtFound`** — the rules accept the tree from its tokens, in front of whatever
  `Ends` it; one lemma for each way of making trees says how this comes about.
* **`accepts_statements`** — statements one after the other are told apart by their first tokens.

Alternatives are tried in order, so each lemma also says why the earlier ones reject.
-/

namespace Klex.Grammar

open Rule

/-! ### Expressions -/

/-- The first token of an expression, and the tokens after it. -/
structure First (e : Expr) (x : Token) (xs : List Token) : Prop where
  begins : beginsExpr x.kind = true
  paren : x.kind = .openParen → e.render.head? = some (.symbol .openParen)
  word : x.kind = .identifier → x.text ≠ "if" ∧ x.text ≠ "else" ∧ x.text ≠ "return"
  next : x.kind = .identifier → ∀ y ys, xs = y :: ys → y.kind = .operator ∨ y.kind = .openParen

/-- The rules accept the expression from its tokens, in front of what ends it. -/
structure ExprFound (e : Expr) (ts : List Token) : Prop where
  first : ∃ x xs, ts = x :: xs ∧ First e x xs
  basic : e.isBasic = true → ∀ {c d : Cursor}, Read c ts d →
    Accepts (basic tight (endless tight)) c e d ∧ Rejects (negation tight (endless tight)) c
  accepts : ∀ (calls : Nat) {c d : Cursor}, Read c ts d → Ends e.dangles d.rest →
    Accepts ((endless tight).expression calls) c e d

section

variable {c d f : Cursor} {ts us : List Token}

theorem First.of_not_word {e : Expr} {x : Token} {xs : List Token}
    (hbegins : beginsExpr x.kind = true) (hword : x.kind ≠ .identifier)
    (hparen : x.kind = .openParen → e.render.head? = some (.symbol .openParen)) : First e x xs where
  begins := hbegins
  paren := hparen
  word := fun hk => absurd hk hword
  next := fun hk => absurd hk hword

/-- What comes after a basic expression decides. -/
theorem accepts_after_basic {calls : Nat} {left e : Expr}
    (hb : Accepts (basic tight (endless tight)) c left d ∧ Rejects (negation tight (endless tight)) c)
    (h : Accepts (binaryRest tight (endless tight) left <|> callRest tight (endless tight) left
      <|> pure left) d e f) :
    Accepts ((endless tight).expression calls) c e f := by
  rw [endless_expression passes_tight]
  exact hb.2.orElse_accepts (hb.1.bind h)

/-- A basic expression is an expression if nothing continues it. -/
theorem ExprFound.of_basic {e : Expr} (hfirst : ∃ x xs, ts = x :: xs ∧ First e x xs)
    (hbasic : ∀ {c d : Cursor}, Read c ts d →
      Accepts (Grammar.basic tight (endless tight)) c e d ∧
        Rejects (negation tight (endless tight)) c) : ExprFound e ts where
  first := hfirst
  basic := fun _ => hbasic
  accepts := by
    intro calls c d hr hends
    refine accepts_after_basic (hbasic hr) ?_
    have hbinary := rejects_binaryRest (r := endless tight) e fun x xs hx => (hends x xs hx).1
    have hcall := rejects_callRest (r := endless tight) e fun x xs hx => (hends x xs hx).2.1
    exact hbinary.orElse_accepts (hcall.orElse_accepts (.pure e))

theorem ExprFound.literal {t : Token} (h : t.kind.isLiteral = true) :
    ExprFound (.literal t.pos t.value) [t] := by
  have hne : ∀ kind, Kind.isLiteral kind = false → t.kind ≠ kind := by
    rintro kind hk rfl
    rw [h] at hk
    exact absurd hk (by decide)
  have hbegins : beginsExpr t.kind = true := by
    rcases hk : t.kind <;> simp_all [beginsExpr, Kind.isLiteral]
  refine .of_basic ⟨t, [], rfl, .of_not_word hbegins (hne _ rfl) fun hk => ?_⟩ fun hr => ⟨?_, ?_⟩
  · exact absurd hk (hne _ rfl)
  · exact (hr.read (by rw [atom?, if_pos h])).orElse
  · exact (Rejects.token_cons hr.head (hne _ rfl)).bind

theorem ExprFound.name {t : Token} {id : String} (h : t.IsName id) (hspelled : t.text = t.name)
    (hc : (Expr.name t.pos id).isClear = true) : ExprFound (.name t.pos id) [t] := by
  refine .of_basic ⟨t, [], rfl, ?_, ?_, ?_, ?_⟩ fun hr => ⟨?_, ?_⟩
  · rw [h.1]
    rfl
  · intro hk
    exact absurd hk (Token.kind_ne h.1 (by decide))
  · intro _
    rw [hspelled, h.name_eq]
    simp only [Expr.isClear, keywords] at hc
    refine ⟨?_, ?_, ?_⟩ <;> rintro rfl <;> exact absurd hc (by decide)
  · intro _ y ys hy
    simp at hy
  · exact (hr.read (by rw [atom?, h.1, h.name_eq]; rfl)).orElse
  · exact (Rejects.token_cons hr.head (Token.kind_ne h.1 (by decide))).bind

theorem ExprFound.group {start stop : Token} {e : Expr} (hstart : start.kind = .openParen)
    (he : ExprFound e ts) (hstop : stop.kind = .closeParen) :
    ExprFound (.group start.pos e) (start :: (ts ++ [stop])) := by
  have hbegins : beginsExpr start.kind = true := by
    rw [hstart]
    rfl
  refine .of_basic ⟨start, _, rfl, .of_not_word hbegins (Token.kind_ne hstart (by decide))
    fun _ => rfl⟩ fun {c d} hr => ⟨?_, ?_⟩
  · obtain ⟨c₁, hopen, hr₁⟩ := hr.uncons
    obtain ⟨c₂, hts, hclose⟩ := hr₁.split
    have hinner := he.accepts 6 hts (by rw [hclose.head]; exact .of_kind (.inr (.inl hstop)))
    have hatom : Rejects (read atom?) c := by
      refine Rejects.read_cons hr.head ?_
      rw [atom?, hstart]
      rfl
    exact hatom.orElse_accepts ((hopen.token hstart).bind (hinner.bind
      ((hclose.token hstop).bind (.pure _))))
  · exact (Rejects.token_cons hr.head (Token.kind_ne hstart (by decide))).bind

theorem ExprFound.negate {bang : Token} {e : Expr} (hbang : bang.kind = .negate)
    (he : ExprFound e ts) : ExprFound (.negate bang.pos e) (bang :: ts) where
  first := by
    have hbegins : beginsExpr bang.kind = true := by
      rw [hbang]
      rfl
    refine ⟨bang, ts, rfl, .of_not_word hbegins (Token.kind_ne hbang (by decide)) fun hk => ?_⟩
    exact absurd hk (Token.kind_ne hbang (by decide))
  basic := by
    intro hb
    simp [Expr.isBasic] at hb
  accepts := by
    intro calls c d hr hends
    obtain ⟨c₁, hb, hts⟩ := hr.uncons
    have hnegation : Accepts (negation tight (endless tight)) c (.negate bang.pos e) d :=
      (hb.token hbang).bind ((he.accepts _ hts hends).bind (.pure _))
    rw [endless_expression passes_tight]
    exact hnegation.orElse

/-- The first token of a longer expression is that of the expression on its left. -/
theorem First.append {left e : Expr} {x y : Token} {xs ys : List Token} (h : First left x xs)
    (hy : y.kind = .operator ∨ y.kind = .openParen) (he : ∃ row, e.render = left.render ++ row) :
    First e x (xs ++ y :: ys) where
  begins := h.begins
  paren := by
    intro hk
    obtain ⟨row, he⟩ := he
    rw [he, List.head?_append, h.paren hk]
    rfl
  word := h.word
  next := by
    intro hk z zs hz
    rcases xs with _ | ⟨w, ws⟩
    · obtain ⟨rfl, -⟩ := by simpa using hz
      exact hy
    · obtain ⟨rfl, -⟩ := by simpa using hz
      exact h.next hk w ws rfl

theorem ExprFound.binary {op : Token} {symbol : String} {left right : Expr} (hl : ExprFound left ts)
    (hop : op.IsOperator symbol) (hr : ExprFound right us) (hb : left.isBasic = true) :
    ExprFound (.binary left.pos symbol left right) (ts ++ op :: us) where
  first := by
    obtain ⟨x, xs, rfl, hx⟩ := hl.first
    exact ⟨x, _, rfl, hx.append (.inl hop.1) ⟨_, rfl⟩⟩
  basic := by
    intro hb
    simp [Expr.isBasic] at hb
  accepts := by
    intro calls c d hread hends
    obtain ⟨c₁, hts, hread⟩ := hread.split
    obtain ⟨c₂, ho, hus⟩ := hread.uncons
    have hrest : Accepts (binaryRest tight (endless tight) left) c₁
        (.binary left.pos symbol left right) d := by
      rw [binaryRest_tight, ← hop.name_eq]
      exact (ho.token hop.1).bind ((hr.accepts _ hus hends).bind (.pure _))
    exact accepts_after_basic (hl.basic hb hts) hrest.orElse

theorem InList.rejects_expression {calls : Nat} (h : InList c.rest) :
    Rejects ((endless tight).expression calls) c := by
  obtain ⟨x, xs, hx, hk⟩ := h
  refine Grammar.rejects_expression (next_of_cons (P := (beginsExpr ·.kind = false)) hx ?_)
  rcases hk with hk | hk <;> rw [hk] <;> rfl

theorem ExprFound.call {start stop : Token} {callee : Expr} {args : List Expr}
    (hcallee : ExprFound callee ts) (hstart : start.kind = .openParen)
    (hargs : Separated ExprFound args us) (hstop : stop.kind = .closeParen)
    (hb : callee.isBasic = true) (hc : callee.isClear = true) :
    ExprFound (.call callee.pos callee args) (ts ++ start :: (us ++ [stop])) where
  first := by
    obtain ⟨x, xs, rfl, hx⟩ := hcallee.first
    exact ⟨x, _, rfl, hx.append (.inr hstart) ⟨_, rfl⟩⟩
  basic := by
    intro hb
    simp [Expr.isBasic] at hb
  accepts := by
    intro calls c d hread hends
    obtain ⟨c₁, hts, hread⟩ := hread.split
    have hbinary : Rejects (binaryRest tight (endless tight) callee) c₁ :=
      (Rejects.token_cons hread.head (Token.kind_ne hstart (by decide))).bind
    obtain ⟨c₂, ho, hlist⟩ := hread.uncons
    have hfound : Separated (Found ((endless tight).expression 4)) args us :=
      hargs.imp fun ha _ _ hr hd => ha.accepts 4 hr (.of_inList hd)
    have hcomma : Accepts (commaList tight ((endless tight).expression 4) false) c₂ args d :=
      accepts_commaList (reads_endless.expression 4) InList.rejects_expression (.plain hfound) hstop
        hlist
    have hrest : Accepts (callRest tight (endless tight) callee) c₁ (.call callee.pos callee args) d := by
      refine (ho.token hstart).bind ?_
      split
      · -- a clear callee is not the keyword
        simp [Expr.isClear, keywords] at hc
      · exact hcomma.bind (.pure _)
    exact accepts_after_basic (hcallee.basic hb hts) (hbinary.orElse_accepts hrest.orElse)

theorem accepts_params {params : List String} {stop : Token} (h : Listed Named true params ts)
    (hstop : stop.kind = .closeParen) (hr : Read c (ts ++ [stop]) d) :
    Accepts (commaList tight parameter true) c params d := by
  refine accepts_commaList (Reads.read _) ?_ (h.imp ?_) hstop hr
  · rintro e ⟨x, xs, hx, hk⟩
    refine Rejects.read_cons hx ?_
    rcases hk with hk | hk <;> rw [hk] <;> rfl
  · intro name us hname e f hus _
    cases hname with
    | mk hw => exact hus.read (by rw [if_pos hw.1, hw.name_eq])

end

/-! ### Statements -/

/-- The rules accept the statement from its tokens, in front of what ends it. -/
structure StmtFound (s : Stmt) (ts : List Token) : Prop where
  first : ∃ x xs, ts = x :: xs ∧ beginsStmt x.kind = true ∧ ¬ x.IsWord "else" ∧
    (x.kind = .openParen → s.opensParen = true)
  accepts : ∀ (calls : Nat) {c d : Cursor}, Read c ts d → Ends s.dangles d.rest →
    Accepts ((endless tight).statement calls) c s d

section

variable {c d : Cursor} {ts us vs : List Token}

/-- The keyword is read as a name first; the parenthesis after it tells that it is none. -/
theorem ExprFound.function {word start stop : Token} {params : List String} {body : Stmt}
    (hword : word.IsName "function") (hspelled : word.text = word.name)
    (hstart : start.kind = .openParen) (hparams : Listed Named true params ts) (hstop : stop.kind = .closeParen)
    (hbody : StmtFound body us) :
    ExprFound (.function word.pos params body) (word :: start :: (ts ++ stop :: us)) where
  first := by
    refine ⟨word, _, rfl, by rw [hword.1]; rfl, ?_, fun _ => ?_, fun _ y ys hy => ?_⟩
    · intro hk
      exact absurd hk (Token.kind_ne hword.1 (by decide))
    · rw [hspelled, hword.name_eq]
      decide
    · obtain ⟨rfl, -⟩ := by simpa using hy
      exact .inr hstart
  basic := by
    intro hb
    simp [Expr.isBasic] at hb
  accepts := by
    intro calls c d hread hends
    have hnegation : Rejects (negation tight (endless tight)) c :=
      (Rejects.token_cons hread.head (Token.kind_ne hword.1 (by decide))).bind
    obtain ⟨c₁, hw, hread⟩ := hread.uncons
    have hname : Accepts (Grammar.basic tight (endless tight)) c (.name word.pos "function") c₁ := by
      refine (hw.read ?_).orElse
      rw [atom?, hword.1, hword.name_eq]
      rfl
    have hbinary : Rejects (binaryRest tight (endless tight) (.name word.pos "function")) c₁ :=
      (Rejects.token_cons hread.head (Token.kind_ne hstart (by decide))).bind
    obtain ⟨c₂, ho, hread⟩ := hread.uncons
    rw [← List.singleton_append, ← List.append_assoc] at hread
    obtain ⟨c₃, hlist, hus⟩ := hread.split
    have hrest : Accepts (callRest tight (endless tight) (.name word.pos "function")) c₁
        (.function word.pos params body) d := by
      refine (ho.token hstart).bind ?_
      exact (accepts_params hparams hstop hlist).bind ((hbody.accepts _ hus hends).bind (.pure _))
    exact accepts_after_basic ⟨hname, hnegation⟩ (hbinary.orElse_accepts hrest.orElse)

/-- An expression does not look like an assignment, whatever comes after it. -/
theorem First.rejects_assignment {e : Expr} {x : Token} {xs : List Token} (h : First e x xs)
    (hc : c.rest = x :: (xs ++ d.rest)) {dangling : Bool} (hends : Ends dangling d.rest) :
    Rejects (assignment tight (endless tight)) c := by
  rw [assignment_tight]
  by_cases hk : x.kind = .identifier
  · refine Accepts.bind_rejects (.token hc hk) (Rejects.bind (.token fun y ys hy => ?_))
    rcases xs with _ | ⟨z, zs⟩
    · exact (hends y ys hy).2.2.1
    · obtain ⟨rfl, -⟩ := by simpa using hy
      rcases h.next hk z zs rfl with hz | hz <;> rw [hz] <;> decide
  · exact (Rejects.token_cons hc hk).bind

theorem StmtFound.expr {e : Expr} (he : ExprFound e ts) : StmtFound (.expr e) ts where
  first := by
    obtain ⟨x, xs, rfl, hx⟩ := he.first
    refine ⟨x, xs, rfl, ?_, fun hw => (hx.word hw.1).2.1 hw.2, fun hk => ?_⟩
    · have hbegins := hx.begins
      rcases hk : x.kind <;> simp_all [beginsStmt, beginsExpr]
    · rw [Stmt.opensParen, Stmt.render, hx.paren hk]
      rfl
  accepts := by
    intro calls c d hr hends
    have haccepts := he.accepts 1 hr hends
    obtain ⟨x, xs, rfl, hx⟩ := he.first
    have hcurly : x.kind ≠ .openCurly := by
      intro hk
      have hbegins := hx.begins
      rw [hk] at hbegins
      exact absurd hbegins (by decide)
    rw [endless_bareStatement]
    refine (Rejects.token_cons hr.head hcurly).bind.orElse_accepts ?_
    refine (Rejects.keyword_cons hr.head fun hw => (hx.word hw.1).1 hw.2).bind.orElse_accepts ?_
    refine (Rejects.keyword_cons hr.head fun hw => (hx.word hw.1).2.2 hw.2).bind.orElse_accepts ?_
    exact (hx.rejects_assignment hr.head hends).orElse_accepts (haccepts.bind (.pure _))

/-- A statement that begins with a word, other than an expression. -/
theorem first_of_word {s : Stmt} {word : Token} {text : String} (hword : word.IsWord text)
    (htext : text ≠ "else") : ∃ x xs, word :: ts = x :: xs ∧ beginsStmt x.kind = true ∧
      ¬ x.IsWord "else" ∧ (x.kind = .openParen → s.opensParen = true) := by
  refine ⟨word, ts, rfl, by rw [hword.1]; rfl, ?_, ?_⟩
  · intro hw
    exact htext (hword.2.symm.trans hw.2)
  · intro hk
    exact absurd hk (Token.kind_ne hword.1 (by decide))

/-- A word is no block. -/
theorem rejects_block_word {word : Token} {text : String} (hword : word.IsWord text)
    (h : c.rest = word :: us) : Rejects (block tight (endless tight)) c :=
  (Rejects.token_cons h (Token.kind_ne hword.1 (by decide))).bind

theorem StmtFound.ret {word : Token} {e : Expr} (hword : word.IsWord "return")
    (he : ExprFound e ts) : StmtFound (.ret word.pos e) (word :: ts) where
  first := first_of_word hword (by decide)
  accepts := by
    intro calls c d hr hends
    have hif : Rejects (condition tight (endless tight)) c := by
      refine (Rejects.keyword_cons hr.head fun hw => ?_).bind
      exact absurd (hword.2.symm.trans hw.2) (by decide)
    have hblock := rejects_block_word hword hr.head
    obtain ⟨c₁, hw, hts⟩ := hr.uncons
    have hret : Accepts (returning tight (endless tight)) c (.ret word.pos e) d :=
      (hw.keyword hword).bind ((he.accepts _ hts hends).bind (.pure _))
    rw [endless_bareStatement]
    exact hblock.orElse_accepts (hif.orElse_accepts hret.orElse)

theorem StmtFound.assign {target eq : Token} {name : String} {e : Expr} (htarget : target.IsName name)
    (hspelled : target.text = target.name) (heq : eq.kind = .assign) (he : ExprFound e ts)
    (hc : keywords.contains name = false) :
    StmtFound (.assign target.pos name e) (target :: eq :: ts) where
  first := by
    refine first_of_word ⟨htarget.1, hspelled.trans htarget.name_eq⟩ ?_
    rintro rfl
    exact absurd hc (by decide)
  accepts := by
    intro calls c d hr hends
    have htext : target.IsWord name := ⟨htarget.1, hspelled.trans htarget.name_eq⟩
    have hword : ∀ text, keywords.contains text = true → Rejects (keyword text) c := by
      intro text hk
      refine Rejects.keyword_cons hr.head fun hw => ?_
      rw [← hw.2, htext.2, hc] at hk
      exact absurd hk (by decide)
    have hblock := rejects_block_word htext hr.head
    obtain ⟨c₁, ht, hr⟩ := hr.uncons
    obtain ⟨c₂, hq, hts⟩ := hr.uncons
    have hassign : Accepts (assignment tight (endless tight)) c (.assign target.pos name e) d := by
      rw [assignment_tight, ← htarget.name_eq]
      exact (ht.token htarget.1).bind
        ((hq.token heq).bind ((he.accepts _ hts hends).bind (.pure _)))
    rw [endless_bareStatement]
    refine hblock.orElse_accepts ?_
    have hif : Rejects (condition tight (endless tight)) c := (hword "if" (by decide)).bind
    have hret : Rejects (returning tight (endless tight)) c := (hword "return" (by decide)).bind
    exact hif.orElse_accepts (hret.orElse_accepts hassign.orElse)

/-- A condition, given how its second branch is read. -/
theorem StmtFound.of_elseBranch {word start stop : Token} {test : Expr} {yes : Stmt}
    {no : Option Stmt} (hword : word.IsWord "if") (hstart : start.kind = .openParen)
    (htest : ExprFound test ts) (hstop : stop.kind = .closeParen) (hyes : StmtFound yes us)
    (helse : ∀ {c d : Cursor}, Read c vs d → Ends (Stmt.danglesElse no) d.rest →
      Ends yes.dangles c.rest ∧ Accepts (elseBranch tight (endless tight)) c no d) :
    StmtFound (.cond word.pos test yes no) (word :: start :: (ts ++ stop :: (us ++ vs))) where
  first := first_of_word hword (by decide)
  accepts := by
    intro calls c d hr hends
    have hblock := rejects_block_word hword hr.head
    obtain ⟨c₁, hw, hr⟩ := hr.uncons
    obtain ⟨c₂, ho, hr⟩ := hr.uncons
    obtain ⟨c₃, hts, hr⟩ := hr.split
    have hclosing : Ends test.dangles c₃.rest := by
      rw [hr.head]
      exact .of_kind (.inr (.inl hstop))
    obtain ⟨c₄, hc, hr⟩ := hr.uncons
    obtain ⟨c₅, hus, hvs⟩ := hr.split
    obtain ⟨hyesEnds, hno⟩ := helse hvs hends
    have hcond : Accepts (condition tight (endless tight)) c (.cond word.pos test yes no) d :=
      (hw.keyword hword).bind ((ho.token hstart).bind ((htest.accepts _ hts hclosing).bind
        ((hc.token hstop).bind ((hyes.accepts _ hus hyesEnds).bind (hno.bind (.pure _))))))
    rw [endless_bareStatement]
    exact hblock.orElse_accepts hcond.orElse

theorem StmtFound.cond {word start stop : Token} {test : Expr} {yes : Stmt}
    (hword : word.IsWord "if") (hstart : start.kind = .openParen) (htest : ExprFound test ts)
    (hstop : stop.kind = .closeParen) (hyes : StmtFound yes us) :
    StmtFound (.cond word.pos test yes none) (word :: start :: (ts ++ stop :: us)) := by
  rw [← List.append_nil us]
  refine .of_elseBranch hword hstart htest hstop hyes fun {c d} hr hends => ?_
  obtain rfl := hr.eq_of_nil
  have hnone : Rejects (keyword "else") c := Rejects.keyword fun x xs hx =>
    (hends x xs hx).2.2.2 rfl
  exact ⟨hends.mono, hnone.optional.bind (.pure none)⟩

/-- The second branch belongs to this condition, since the first branch does not end with one that
could take it. -/
theorem StmtFound.condElse {word start stop other : Token} {test : Expr} {yes no : Stmt}
    (hword : word.IsWord "if") (hstart : start.kind = .openParen) (htest : ExprFound test ts)
    (hstop : stop.kind = .closeParen) (hyes : StmtFound yes us) (hother : other.IsWord "else")
    (hno : StmtFound no vs) (hdangles : yes.dangles = false) :
    StmtFound (.cond word.pos test yes (some no))
      (word :: start :: (ts ++ stop :: (us ++ other :: vs))) := by
  refine .of_elseBranch hword hstart htest hstop hyes fun {c d} hr hends => ⟨?_, ?_⟩
  · rw [hr.head]
    refine Ends.cons (Token.kind_ne hother.1 (by decide)) (Token.kind_ne hother.1 (by decide))
      (Token.kind_ne hother.1 (by decide)) fun hd => ?_
    rw [hdangles] at hd
    exact absurd hd (by decide)
  · obtain ⟨c₁, hw, hvs⟩ := hr.uncons
    exact (hw.keyword hother).optional.bind ((hno.accepts _ hvs hends).bind (.pure _))

/-- A statement that does not begin with a parenthesis ends the one before it. -/
theorem StmtFound.ends {s : Stmt} {dangling : Bool} (h : StmtFound s ts)
    (hparen : s.opensParen = false) (hr : Read c ts d) : Ends dangling c.rest := by
  obtain ⟨x, xs, rfl, hbegins, helse, hopens⟩ := h.first
  have hne : ∀ kind, beginsStmt kind = false → x.kind ≠ kind := by
    rintro kind hk rfl
    rw [hbegins] at hk
    exact absurd hk (by decide)
  rw [hr.head]
  refine Ends.cons (hne _ rfl) (fun hk => ?_) (hne _ rfl) fun _ => helse
  rw [hopens hk] at hparen
  exact absurd hparen (by decide)

/-- Statements one after the other, up to where none begins. -/
theorem accepts_statements {calls : Nat} {body : List Stmt} (h : Sequence StmtFound body ts)
    (hparen : body.tail.all (fun s => !s.opensParen) = true) (hr : Read c ts d)
    (hends : Ends true d.rest) (hstop : Rejects ((endless tight).statement calls) d) :
    Accepts (many ((endless tight).statement calls)) c body d := by
  induction h generalizing c with
  | nil =>
    obtain rfl := hr.eq_of_nil
    exact .many_nil hstop
  | @cons s ss ts us hs hss ih =>
    obtain ⟨c₁, hts, hus⟩ := hr.split
    have hbetween : Ends s.dangles c₁.rest := by
      cases hss with
      | nil =>
        obtain rfl := hus.eq_of_nil
        exact hends.mono
      | cons hs' _ =>
        obtain ⟨c₂, hts', -⟩ := hus.split
        refine hs'.ends ?_ hts'
        simpa using (List.all_eq_true.1 hparen) _ (List.mem_cons_self ..)
    have htail : ss.tail.all (fun s => !s.opensParen) = true := by
      refine List.all_eq_true.2 fun s hs => ?_
      exact List.all_eq_true.1 hparen s (List.mem_of_mem_tail hs)
    exact .many_cons (reads_endless.statement calls) Stmt.Yields.ne_nil (hs.accepts _ hts hbetween)
      (ih htail hus)

theorem StmtFound.block {start stop : Token} {body : List Stmt} (hstart : start.kind = .openCurly)
    (hbody : Sequence StmtFound body ts) (hstop : stop.kind = .closeCurly)
    (hparen : body.tail.all (fun s => !s.opensParen) = true) :
    StmtFound (.block ((ts ++ [stop]).head?.map Token.pos) body) (start :: (ts ++ [stop])) where
  first := by
    refine ⟨start, _, rfl, by rw [hstart]; rfl, fun hw => ?_, fun hk => ?_⟩
    · exact absurd hw.1 (Token.kind_ne hstart (by decide))
    · exact absurd hk (Token.kind_ne hstart (by decide))
  accepts := by
    intro calls c d hr hends
    obtain ⟨c₁, ho, hr⟩ := hr.uncons
    have hpos : c₁.pos? = (ts ++ [stop]).head?.map Token.pos := by
      rw [Cursor.pos?, hr.rest, List.head?_append, List.head?_append]
      cases ts.head? <;> rfl
    obtain ⟨c₂, hts, hc⟩ := hr.split
    have hrejects : Rejects ((endless tight).statement 4) c₂ := by
      refine rejects_statement (next_of_cons (P := (beginsStmt ·.kind = false)) hc.head ?_)
      rw [hstop]
      rfl
    have hends₂ : Ends true c₂.rest := by
      rw [hc.head]
      exact .of_kind (.inr (.inr hstop))
    have hplaced := (accepts_statements hbody hparen hts hends₂ hrejects).placed
    rw [hpos] at hplaced
    have hblock : Accepts (Grammar.block tight (endless tight)) c
        (.block ((ts ++ [stop]).head?.map Token.pos) body) d := by
      rw [block_tight]
      exact (ho.token hstart).bind (hplaced.bind ((hc.token hstop).bind (.pure _)))
    rw [endless_bareStatement]
    exact hblock.orElse

end

end Klex.Grammar
