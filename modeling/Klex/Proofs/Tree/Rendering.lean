import Klex.Proofs.Grammar.Derivation

/-!
# Rendering trees

Every tree can be written down, and what is written down is a derivation of it.

* **`Lexeme`** — what the grammar sees of a token; offset, colour and the spelling of literals and
  operators do not count.
* **`Expr.render`**, **`Stmt.render`**, **`Program.render`** — a tree written down: blocks in curly
  brackets, items of a list with a comma between them.
* **`Expr.unplaced`**, **`Stmt.unplaced`**, **`Program.unplaced`** — a tree without its offsets.
* **`Program.yields_of_render`** — **tokens that look like a rendered tree are a derivation of that
  tree**, up to the offsets of its nodes.
* **`SpelledByName`** — identifiers are spelled like the names that they stand for; so it is in what is
  written down (`Program.spelled_of_render`).
-/

namespace Klex

open Grammar

/-! ### Lexemes -/

/-- What the grammar sees of a token. -/
inductive Lexeme where
  | literal (value : Literal)
  /-- An identifier: a keyword is told by its text, a name is what it stands for. -/
  | word (text name : String)
  | operator (symbol : String)
  /-- Any other kind of token; its text does not matter. -/
  | symbol (kind : Kind)

/-- An identifier that is spelled like the name that it stands for. -/
def Lexeme.named (name : String) : Lexeme := .word name name

/-- What the grammar sees of the token. -/
def Token.lexeme (t : Token) : Lexeme :=
  if t.kind.isLiteral then .literal t.value
  else match t.kind with
    | .identifier => .word t.text t.name
    | .operator => .operator t.name
    | kind => .symbol kind

section

variable {t : Token}

theorem Token.lexeme_literal {value : Literal} (h : t.lexeme = .literal value) :
    t.kind.isLiteral = true ∧ t.value = value := by
  unfold Token.lexeme at h
  split at h
  · next hl => exact ⟨hl, Lexeme.literal.inj h⟩
  · split at h <;> simp at h

theorem Token.lexeme_word {text name : String} (h : t.lexeme = .word text name) :
    t.IsWord text ∧ t.IsName name := by
  unfold Token.lexeme at h
  split at h
  · simp at h
  · split at h
    · next hk =>
      obtain ⟨htext, hname⟩ := Lexeme.word.inj h
      exact ⟨⟨hk, htext⟩, hname ▸ Token.isName hk⟩
    · simp at h
    · simp at h

theorem Token.lexeme_named {name : String} (h : t.lexeme = .named name) :
    t.IsWord name ∧ t.IsName name :=
  Token.lexeme_word h

theorem Token.lexeme_operator {symbol : String} (h : t.lexeme = .operator symbol) :
    t.IsOperator symbol := by
  unfold Token.lexeme at h
  split at h
  · simp at h
  · split at h
    · simp at h
    · next hk => exact Lexeme.operator.inj h ▸ Token.isOperator hk
    · simp at h

theorem Token.lexeme_symbol {kind : Kind} (h : t.lexeme = .symbol kind) : t.kind = kind := by
  unfold Token.lexeme at h
  split at h
  · simp at h
  · split at h
    · simp at h
    · simp at h
    · exact Lexeme.symbol.inj h

end

/-! ### Writing trees down -/

/-- A comma before each row. -/
def afterCommas (rows : List (List Lexeme)) : List Lexeme :=
  rows.flatMap fun row => .symbol .comma :: row

/-- Rows with a comma between them. -/
def withCommas : List (List Lexeme) → List Lexeme
  | [] => []
  | row :: rows => row ++ afterCommas rows

/-- Lexemes in parentheses. -/
def inParens (row : List Lexeme) : List Lexeme := .symbol .openParen :: (row ++ [.symbol .closeParen])

mutual

/-- An expression written down. -/
def Expr.render : Expr → List Lexeme
  | .literal _ value => [.literal value]
  | .name _ id => [.named id]
  | .group _ inner => inParens inner.render
  | .negate _ operand => .symbol .negate :: operand.render
  | .binary _ op left right => left.render ++ .operator op :: right.render
  | .call _ callee args => callee.render ++ inParens (withCommas (Expr.renderAll args))
  | .function _ params body =>
    .named "function" :: (inParens (withCommas (params.map fun x => [.named x])) ++ body.render)

/-- Each of the expressions written down. -/
def Expr.renderAll : List Expr → List (List Lexeme)
  | [] => []
  | e :: es => e.render :: Expr.renderAll es

/-- A statement written down. -/
def Stmt.render : Stmt → List Lexeme
  | .expr e => e.render
  | .block _ body => .symbol .openCurly :: (Stmt.renderAll body ++ [.symbol .closeCurly])
  | .ret _ value => .named "return" :: value.render
  | .assign _ target value => .named target :: .symbol .assign :: value.render
  | .cond _ test yes no =>
    .named "if" :: (inParens test.render ++ (yes.render ++ Stmt.renderElse no))

/-- A second branch written down, if there is one. -/
def Stmt.renderElse : Option Stmt → List Lexeme
  | none => []
  | some no => .named "else" :: no.render

/-- Statements written down one after the other. -/
def Stmt.renderAll : List Stmt → List Lexeme
  | [] => []
  | s :: ss => s.render ++ Stmt.renderAll ss

end

/-- A program written down. -/
def Program.render (p : Program) : List Lexeme := Stmt.renderAll p.statements

/-! ### Trees without offsets -/

mutual

/-- The expression without offsets. -/
def Expr.unplaced : Expr → Expr
  | .literal _ value => .literal 0 value
  | .name _ id => .name 0 id
  | .group _ inner => .group 0 inner.unplaced
  | .negate _ operand => .negate 0 operand.unplaced
  | .binary _ op left right => .binary 0 op left.unplaced right.unplaced
  | .call _ callee args => .call 0 callee.unplaced (Expr.unplacedAll args)
  | .function _ params body => .function 0 params body.unplaced

/-- The expressions without offsets. -/
def Expr.unplacedAll : List Expr → List Expr
  | [] => []
  | e :: es => e.unplaced :: Expr.unplacedAll es

/-- The statement without offsets. -/
def Stmt.unplaced : Stmt → Stmt
  | .expr e => .expr e.unplaced
  | .block _ body => .block none (Stmt.unplacedAll body)
  | .ret _ value => .ret 0 value.unplaced
  | .assign _ target value => .assign 0 target value.unplaced
  | .cond _ test yes no => .cond 0 test.unplaced yes.unplaced (Stmt.unplacedElse no)

/-- The second branch without offsets. -/
def Stmt.unplacedElse : Option Stmt → Option Stmt
  | none => none
  | some no => some no.unplaced

/-- The statements without offsets. -/
def Stmt.unplacedAll : List Stmt → List Stmt
  | [] => []
  | s :: ss => s.unplaced :: Stmt.unplacedAll ss

end

/-- The program without offsets. -/
def Program.unplaced (p : Program) : Program := ⟨none, Stmt.unplacedAll p.statements⟩

theorem Expr.unplacedAll_eq_map (es : List Expr) : Expr.unplacedAll es = es.map Expr.unplaced := by
  induction es with
  | nil => rfl
  | cons e es ih => rw [Expr.unplacedAll, List.map_cons, ih]

theorem Stmt.unplacedElse_eq_map (no : Option Stmt) :
    Stmt.unplacedElse no = no.map Stmt.unplaced := by
  cases no <;> rfl

theorem Stmt.unplacedAll_eq_map (ss : List Stmt) :
    Stmt.unplacedAll ss = ss.map Stmt.unplaced := by
  induction ss with
  | nil => rfl
  | cons s ss ih => rw [Stmt.unplacedAll, List.map_cons, ih]

/-! ### Rendered trees are derived -/

theorem exists_of_inParens {ts : List Token} {row : List Lexeme}
    (h : ts.map Token.lexeme = inParens row) :
    ∃ start us stop, ts = start :: (us ++ [stop]) ∧ start.kind = .openParen ∧
      us.map Token.lexeme = row ∧ stop.kind = .closeParen := by
  obtain ⟨start, vs, rfl, hstart, hvs⟩ := List.map_eq_cons_iff.1 h
  obtain ⟨us, ws, rfl, hus, hws⟩ := List.map_eq_append_iff.1 hvs
  obtain ⟨stop, rfl, hstop⟩ := List.map_eq_singleton_iff.1 hws
  exact ⟨start, us, stop, rfl, Token.lexeme_symbol hstart, hus, Token.lexeme_symbol hstop⟩

/-- Names after commas. -/
theorem named_of_afterCommas (names : List String) {ts : List Token}
    (h : ts.map Token.lexeme = afterCommas (names.map fun x => [.named x])) :
    Sequence (AfterComma Named) names ts := by
  induction names generalizing ts with
  | nil =>
    obtain rfl := List.map_eq_nil_iff.1 h
    exact .nil
  | cons name names ih =>
    obtain ⟨us, vs, rfl, hus, hvs⟩ := List.map_eq_append_iff.1 h
    obtain ⟨comma, ws, rfl, hcomma, hws⟩ := List.map_eq_cons_iff.1 hus
    obtain ⟨t, rfl, ht⟩ := List.map_eq_singleton_iff.1 hws
    exact .cons (.mk (Token.lexeme_symbol hcomma) (.mk (Token.lexeme_named ht).2)) (ih hvs)

theorem named_of_withCommas {names : List String} {ts : List Token}
    (h : ts.map Token.lexeme = withCommas (names.map fun x => [.named x])) :
    Separated Named names ts := by
  cases names with
  | nil =>
    obtain rfl := List.map_eq_nil_iff.1 h
    exact .bare .nil
  | cons name names =>
    obtain ⟨us, vs, rfl, hus, hvs⟩ := List.map_eq_append_iff.1 h
    obtain ⟨t, rfl, ht⟩ := List.map_eq_singleton_iff.1 hus
    exact .full (.mk (Token.lexeme_named ht).2) (named_of_afterCommas names hvs)

-- The recursion is on the tree, which the tokens are split along.
mutual

theorem Expr.yields_of_render : ∀ (e : Expr) {ts : List Token},
    ts.map Token.lexeme = e.render → ∃ e' : Expr, e'.Yields ts ∧ e'.unplaced = e.unplaced
  | .literal pos value, ts, h => by
    obtain ⟨t, rfl, ht⟩ := List.map_eq_singleton_iff.1 h
    obtain ⟨hkind, rfl⟩ := Token.lexeme_literal ht
    exact ⟨_, .literal hkind, rfl⟩
  | .name pos id, ts, h => by
    obtain ⟨t, rfl, ht⟩ := List.map_eq_singleton_iff.1 h
    exact ⟨_, .name (Token.lexeme_named ht).2, rfl⟩
  | .group pos inner, ts, h => by
    obtain ⟨start, us, stop, rfl, hstart, hus, hstop⟩ := exists_of_inParens h
    obtain ⟨inner', hinner, hsame⟩ := Expr.yields_of_render inner hus
    exact ⟨_, .group hstart hinner hstop, by rw [Expr.unplaced, Expr.unplaced, hsame]⟩
  | .negate pos operand, ts, h => by
    obtain ⟨bang, us, rfl, hbang, hus⟩ := List.map_eq_cons_iff.1 h
    obtain ⟨operand', hoperand, hsame⟩ := Expr.yields_of_render operand hus
    exact ⟨_, .negate (Token.lexeme_symbol hbang) hoperand,
      by rw [Expr.unplaced, Expr.unplaced, hsame]⟩
  | .binary pos op left right, ts, h => by
    obtain ⟨us, vs, rfl, hus, hvs⟩ := List.map_eq_append_iff.1 h
    obtain ⟨t, ws, rfl, ht, hws⟩ := List.map_eq_cons_iff.1 hvs
    obtain ⟨left', hleft, hsame⟩ := Expr.yields_of_render left hus
    obtain ⟨right', hright, hsame'⟩ := Expr.yields_of_render right hws
    exact ⟨_, .binary hleft (Token.lexeme_operator ht) hright,
      by rw [Expr.unplaced, Expr.unplaced, hsame, hsame']⟩
  | .call pos callee args, ts, h => by
    obtain ⟨us, vs, rfl, hus, hvs⟩ := List.map_eq_append_iff.1 h
    obtain ⟨start, ws, stop, rfl, hstart, hws, hstop⟩ := exists_of_inParens hvs
    obtain ⟨callee', hcallee, hsame⟩ := Expr.yields_of_render callee hus
    obtain ⟨args', hargs, hsame'⟩ := Expr.yields_of_withCommas args hws
    exact ⟨_, .call hcallee hstart hargs hstop, by rw [Expr.unplaced, Expr.unplaced, hsame, hsame']⟩
  | .function pos params body, ts, h => by
    obtain ⟨word, us, rfl, hword, hus⟩ := List.map_eq_cons_iff.1 h
    obtain ⟨vs, ws, rfl, hvs, hws⟩ := List.map_eq_append_iff.1 hus
    obtain ⟨start, xs, stop, rfl, hstart, hxs, hstop⟩ := exists_of_inParens hvs
    obtain ⟨body', hbody, hsame⟩ := Stmt.yields_of_render body hws
    have hyields := Expr.Yields.function (Token.lexeme_named hword).2 hstart
      (.plain (named_of_withCommas hxs)) hstop hbody
    refine ⟨_, by simpa using hyields, ?_⟩
    rw [Expr.unplaced, Expr.unplaced, hsame]

theorem Expr.yields_of_withCommas : ∀ (args : List Expr) {ts : List Token},
    ts.map Token.lexeme = withCommas (Expr.renderAll args) →
    ∃ args', Separated Expr.Yields args' ts ∧ Expr.unplacedAll args' = Expr.unplacedAll args
  | [], ts, h => by
    obtain rfl := List.map_eq_nil_iff.1 h
    exact ⟨[], .bare .nil, rfl⟩
  | e :: es, ts, h => by
    obtain ⟨us, vs, rfl, hus, hvs⟩ := List.map_eq_append_iff.1 h
    obtain ⟨e', he, hsame⟩ := Expr.yields_of_render e hus
    obtain ⟨es', hes, hsame'⟩ := Expr.yields_of_afterCommas es hvs
    exact ⟨e' :: es', .full he hes, by rw [Expr.unplacedAll, Expr.unplacedAll, hsame, hsame']⟩

theorem Expr.yields_of_afterCommas : ∀ (args : List Expr) {ts : List Token},
    ts.map Token.lexeme = afterCommas (Expr.renderAll args) →
    ∃ args', Sequence (AfterComma Expr.Yields) args' ts ∧
      Expr.unplacedAll args' = Expr.unplacedAll args
  | [], ts, h => by
    obtain rfl := List.map_eq_nil_iff.1 h
    exact ⟨[], .nil, rfl⟩
  | e :: es, ts, h => by
    obtain ⟨us, vs, rfl, hus, hvs⟩ := List.map_eq_append_iff.1 h
    obtain ⟨comma, ws, rfl, hcomma, hws⟩ := List.map_eq_cons_iff.1 hus
    obtain ⟨e', he, hsame⟩ := Expr.yields_of_render e hws
    obtain ⟨es', hes, hsame'⟩ := Expr.yields_of_afterCommas es hvs
    exact ⟨e' :: es', .cons (.mk (Token.lexeme_symbol hcomma) he) hes,
      by rw [Expr.unplacedAll, Expr.unplacedAll, hsame, hsame']⟩

theorem Stmt.yields_of_render : ∀ (s : Stmt) {ts : List Token},
    ts.map Token.lexeme = s.render → ∃ s' : Stmt, s'.Yields ts ∧ s'.unplaced = s.unplaced
  | .expr e, ts, h => by
    obtain ⟨e', he, hsame⟩ := Expr.yields_of_render e h
    exact ⟨_, .expr he, by rw [Stmt.unplaced, Stmt.unplaced, hsame]⟩
  | .block pos body, ts, h => by
    obtain ⟨start, us, rfl, hstart, hus⟩ := List.map_eq_cons_iff.1 h
    obtain ⟨vs, ws, rfl, hvs, hws⟩ := List.map_eq_append_iff.1 hus
    obtain ⟨stop, rfl, hstop⟩ := List.map_eq_singleton_iff.1 hws
    obtain ⟨body', hbody, hsame⟩ := Stmt.yields_of_renderAll body hvs
    exact ⟨_, .block (Token.lexeme_symbol hstart) hbody (Token.lexeme_symbol hstop),
      by rw [Stmt.unplaced, Stmt.unplaced, hsame]⟩
  | .ret pos value, ts, h => by
    obtain ⟨word, us, rfl, hword, hus⟩ := List.map_eq_cons_iff.1 h
    obtain ⟨value', hvalue, hsame⟩ := Expr.yields_of_render value hus
    exact ⟨_, .ret (Token.lexeme_named hword).1 hvalue,
      by rw [Stmt.unplaced, Stmt.unplaced, hsame]⟩
  | .assign pos target value, ts, h => by
    obtain ⟨word, us, rfl, hword, hus⟩ := List.map_eq_cons_iff.1 h
    obtain ⟨eq, vs, rfl, heq, hvs⟩ := List.map_eq_cons_iff.1 hus
    obtain ⟨value', hvalue, hsame⟩ := Expr.yields_of_render value hvs
    exact ⟨_, .assign (Token.lexeme_named hword).2 (Token.lexeme_symbol heq) hvalue,
      by rw [Stmt.unplaced, Stmt.unplaced, hsame]⟩
  | .cond pos test yes no, ts, h => by
    obtain ⟨word, us, rfl, hword, hus⟩ := List.map_eq_cons_iff.1 h
    obtain ⟨vs, ws, rfl, hvs, hws⟩ := List.map_eq_append_iff.1 hus
    obtain ⟨xs, zs, rfl, hxs, hzs⟩ := List.map_eq_append_iff.1 hws
    obtain ⟨start, ys, stop, rfl, hstart, hys, hstop⟩ := exists_of_inParens hvs
    obtain ⟨test', htest, hsame⟩ := Expr.yields_of_render test hys
    obtain ⟨yes', hyes, hsame'⟩ := Stmt.yields_of_render yes hxs
    cases no with
    | none =>
      obtain rfl := List.map_eq_nil_iff.1 hzs
      have hyields := Stmt.Yields.cond (Token.lexeme_named hword).1 hstart htest hstop hyes
      refine ⟨_, by simpa using hyields, ?_⟩
      rw [Stmt.unplaced, Stmt.unplaced, hsame, hsame']
    | some no =>
      obtain ⟨other, zs, rfl, hother, hno⟩ := List.map_eq_cons_iff.1 hzs
      obtain ⟨no', hno, hsame''⟩ := Stmt.yields_of_render no hno
      have hyields := Stmt.Yields.condElse (Token.lexeme_named hword).1 hstart htest hstop hyes
        (Token.lexeme_named hother).1 hno
      refine ⟨_, by simpa using hyields, ?_⟩
      rw [Stmt.unplaced, Stmt.unplaced, Stmt.unplacedElse, Stmt.unplacedElse, hsame, hsame', hsame'']

theorem Stmt.yields_of_renderAll : ∀ (body : List Stmt) {ts : List Token},
    ts.map Token.lexeme = Stmt.renderAll body →
    ∃ body', Sequence Stmt.Yields body' ts ∧ Stmt.unplacedAll body' = Stmt.unplacedAll body
  | [], ts, h => by
    obtain rfl := List.map_eq_nil_iff.1 h
    exact ⟨[], .nil, rfl⟩
  | s :: ss, ts, h => by
    obtain ⟨us, vs, rfl, hus, hvs⟩ := List.map_eq_append_iff.1 h
    obtain ⟨s', hs, hsame⟩ := Stmt.yields_of_render s hus
    obtain ⟨ss', hss, hsame'⟩ := Stmt.yields_of_renderAll ss hvs
    exact ⟨s' :: ss', .cons hs hss, by rw [Stmt.unplacedAll, Stmt.unplacedAll, hsame, hsame']⟩

end

/-- **Tokens that look like a rendered program are a derivation of it**, up to offsets. -/
theorem Program.yields_of_render (p : Program) {ts : List Token}
    (h : ts.map Token.lexeme = p.render) :
    ∃ q : Program, q.Yields ts ∧ q.unplaced = p.unplaced := by
  obtain ⟨body, hbody, hsame⟩ := Stmt.yields_of_renderAll p.statements h
  refine ⟨⟨ts.head?.map Token.pos, body⟩, ⟨hbody, rfl⟩, ?_⟩
  rw [Program.unplaced, Program.unplaced, hsame]

/-! ### Spelling -/

/-- Identifiers are spelled like the names that they stand for. -/
def SpelledByName (ts : List Token) : Prop := ∀ t ∈ ts, t.kind = .identifier → t.text = t.name

section

variable {t : Token} {ts us : List Token}

theorem SpelledByName.head (h : SpelledByName (t :: ts)) (hk : t.kind = .identifier) : t.text = t.name :=
  h t (List.mem_cons_self ..) hk

theorem SpelledByName.tail (h : SpelledByName (t :: ts)) : SpelledByName ts :=
  fun x hx => h x (List.mem_cons_of_mem t hx)

theorem SpelledByName.left (h : SpelledByName (ts ++ us)) : SpelledByName ts :=
  fun x hx => h x (List.mem_append_left us hx)

theorem SpelledByName.right (h : SpelledByName (ts ++ us)) : SpelledByName us :=
  fun x hx => h x (List.mem_append_right ts hx)

end

/-- Whether the lexeme is spelled like the name that it stands for, if it is a word. -/
def Lexeme.isPlain : Lexeme → Bool
  | .word text name => text == name
  | _ => true

@[simp] theorem Lexeme.isPlain_named (name : String) : (Lexeme.named name).isPlain = true :=
  beq_self_eq_true name

@[simp] theorem Lexeme.isPlain_symbol (kind : Kind) : (Lexeme.symbol kind).isPlain = true := rfl

@[simp] theorem Lexeme.isPlain_operator (symbol : String) :
    (Lexeme.operator symbol).isPlain = true := rfl

theorem isPlain_afterCommas {rows : List (List Lexeme)}
    (h : ∀ row ∈ rows, row.all Lexeme.isPlain = true) :
    (afterCommas rows).all Lexeme.isPlain = true := by
  induction rows with
  | nil => rfl
  | cons row rows ih =>
    have hrows := ih fun other hother => h other (List.mem_cons_of_mem row hother)
    simp only [afterCommas] at hrows
    simp [afterCommas, h row (List.mem_cons_self ..), hrows]

theorem isPlain_withCommas {rows : List (List Lexeme)}
    (h : ∀ row ∈ rows, row.all Lexeme.isPlain = true) :
    (withCommas rows).all Lexeme.isPlain = true := by
  cases rows with
  | nil => rfl
  | cons row rows =>
    rw [withCommas, List.all_append, h row (List.mem_cons_self ..),
      isPlain_afterCommas fun other hother => h other (List.mem_cons_of_mem row hother)]
    rfl

theorem isPlain_inParens {row : List Lexeme} (h : row.all Lexeme.isPlain = true) :
    (inParens row).all Lexeme.isPlain = true := by
  simp [inParens, h]

mutual

theorem Expr.isPlain_render : ∀ e : Expr, e.render.all Lexeme.isPlain = true
  | .literal _ _ => rfl
  | .name _ id => by simp [Expr.render]
  | .group _ inner => isPlain_inParens inner.isPlain_render
  | .negate _ operand => by simp [Expr.render, operand.isPlain_render]
  | .binary _ _ left right => by simp [Expr.render, left.isPlain_render, right.isPlain_render]
  | .call _ callee args => by
    have hargs := isPlain_inParens (isPlain_withCommas (Expr.isPlain_renderAll args))
    simp [Expr.render, callee.isPlain_render, hargs]
  | .function _ params body => by
    have hnames : ∀ row ∈ params.map (fun x => [Lexeme.named x]), row.all Lexeme.isPlain = true := by
      simp
    have hparams := isPlain_inParens (isPlain_withCommas hnames)
    simp [Expr.render, body.isPlain_render, hparams]

theorem Expr.isPlain_renderAll : ∀ es : List Expr,
    ∀ row ∈ Expr.renderAll es, row.all Lexeme.isPlain = true
  | [], row, h => by simp [Expr.renderAll] at h
  | e :: es, row, h => by
    rcases List.mem_cons.1 h with rfl | h
    · exact e.isPlain_render
    · exact Expr.isPlain_renderAll es row h

theorem Stmt.isPlain_render : ∀ s : Stmt, s.render.all Lexeme.isPlain = true
  | .expr e => e.isPlain_render
  | .block _ body => by simp [Stmt.render, Stmt.isPlain_renderAll body]
  | .ret _ value => by simp [Stmt.render, value.isPlain_render]
  | .assign _ _ value => by simp [Stmt.render, value.isPlain_render]
  | .cond _ test yes none => by
    simp [Stmt.render, Stmt.renderElse, isPlain_inParens test.isPlain_render, yes.isPlain_render]
  | .cond _ test yes (some no) => by
    simp [Stmt.render, Stmt.renderElse, isPlain_inParens test.isPlain_render, yes.isPlain_render,
      no.isPlain_render]

theorem Stmt.isPlain_renderAll : ∀ ss : List Stmt, (Stmt.renderAll ss).all Lexeme.isPlain = true
  | [] => rfl
  | s :: ss => by simp [Stmt.renderAll, s.isPlain_render, Stmt.isPlain_renderAll ss]

end

/-- **What is written down is spelled as it is called.** -/
theorem Program.spelled_of_render (p : Program) {ts : List Token}
    (h : ts.map Token.lexeme = p.render) : SpelledByName ts := by
  intro t ht hk
  have hall := List.all_eq_true.1 (Stmt.isPlain_renderAll p.statements) t.lexeme
  have hplain := hall (by
    rw [show Stmt.renderAll p.statements = ts.map Token.lexeme from h.symm]
    exact List.mem_map_of_mem ht)
  have hword : t.lexeme = .word t.text t.name := by
    rw [Token.lexeme, hk]
    rfl
  rw [hword] at hplain
  exact eq_of_beq hplain

end Klex
