import Klex.Proofs.Grammar.Soundness
import Klex.Proofs.Token.Tiling

/-!
# Where the nodes of a tree stand

Messages and carets go by the offsets in a tree, so these have to lead back to the text.

* **`Node`**, **`Node.children`**, **`Node.Inside`** — a whole text, a statement or an expression, what it is
  made of, and the nodes of the tree below it.
* **`Laid`** — nodes in a row, read off tokens one after the other, with other tokens between them.
* **`Node.Yields.spread`** — a node begins at a token, and from there on its children are laid out.
* **`tokenize_symbols`** — a token of a symbol's kind is that symbol.
* **`Node.Placed`** — what is to be found in the text at the offset of a node.
* **`nodes_placed`** — **in the tree of any text, every node is placed**; it stands no later than its
  children, these stand one behind the other, and only a text without tokens has no offset.
-/

namespace Klex

open Grammar

/-! ### Nodes -/

/-- A node of a tree.  An expression that stands as a statement is two nodes at one offset. -/
inductive Node where
  | expr (e : Expr)
  | stmt (s : Stmt)
  | program (p : Program)

namespace Node

/-- The offset of a node. -/
def pos? : Node → Option Nat
  | .expr e => some e.pos
  | .stmt s => s.pos
  | .program p => p.pos

/-- What a node is made of, in the order of the text. -/
def children : Node → List Node
  | .expr (.literal _ _) => []
  | .expr (.name _ _) => []
  | .expr (.group _ inner) => [.expr inner]
  | .expr (.negate _ operand) => [.expr operand]
  | .expr (.binary _ _ left right) => [.expr left, .expr right]
  | .expr (.call _ callee args) => .expr callee :: args.map .expr
  | .expr (.function _ _ body) => [.stmt body]
  | .stmt (.expr e) => [.expr e]
  | .stmt (.block _ body) => body.map .stmt
  | .stmt (.ret _ value) => [.expr value]
  | .stmt (.assign _ _ value) => [.expr value]
  | .stmt (.cond _ test yes no) => .expr test :: .stmt yes :: no.toList.map .stmt
  | .program p => p.statements.map .stmt

/-- A whole text is no part of a node. -/
theorem program_not_mem_children {n : Node} {p : Program} : .program p ∉ n.children := by
  rcases n with (_ | _) | (_ | _) | _ <;> simp [children]

/-- The node is the root or somewhere below it. -/
inductive Inside (root : Node) : Node → Prop
  | root : Inside root root
  | child {n c : Node} : Inside root n → c ∈ n.children → Inside root c

/-- The tokens that a node stands for. -/
def Yields : Node → List Token → Prop
  | .expr e => e.Yields
  | .stmt s => s.Yields
  | .program p => p.Yields

/-- Both nodes have an offset, and the first one stands before the second. -/
def Before (a b : Node) : Prop := ∃ p q, a.pos? = some p ∧ b.pos? = some q ∧ p < q

/-- Both nodes have an offset, and the first one does not stand behind the second. -/
def NotBehind (a b : Node) : Prop := ∃ p q, a.pos? = some p ∧ b.pos? = some q ∧ p ≤ q

end Node

/-! ### Nodes in a row -/

/-- Nodes that are read off tokens one after the other; any token may stand around them. -/
inductive Laid : List Node → List Token → Prop
  | nil {ts : List Token} : Laid [] ts
  | skip {ns : List Node} {t : Token} {ts : List Token} : Laid ns ts → Laid ns (t :: ts)
  | cons {n : Node} {ns : List Node} {ts us : List Token} :
      n.Yields ts → ts ≠ [] → Laid ns us → Laid (n :: ns) (ts ++ us)

namespace Laid

variable {n : Node} {ns : List Node} {ts us : List Token}

theorem last (hn : n.Yields ts) (hne : ts ≠ []) : Laid [n] ts := by
  have h : Laid [n] (ts ++ []) := .cons hn hne .nil
  rwa [List.append_nil] at h

theorem after (before : List Token) (h : Laid ns ts) : Laid ns (before ++ ts) := by
  induction before with
  | nil => exact h
  | cons t before ih => exact .skip ih

theorem append {ms : List Node} (h : Laid ns ts) (h' : Laid ms us) : Laid (ns ++ ms) (ts ++ us) := by
  induction h with
  | nil => exact h'.after _
  | skip _ ih => exact .skip ih
  | cons hn hne _ ih =>
    rw [List.append_assoc]
    exact .cons hn hne ih

theorem ahead (h : Laid ns ts) (behind : List Token) : Laid ns (ts ++ behind) := by
  have hnone : Laid [] behind := .nil
  have hboth := h.append hnone
  rwa [List.append_nil] at hboth

/-- Each of the nodes has a stretch of the tokens. -/
theorem stretch (h : Laid ns ts) (hn : n ∈ ns) : ∃ us, us <:+: ts ∧ us ≠ [] ∧ n.Yields us := by
  induction h with
  | nil => exact absurd hn List.not_mem_nil
  | skip _ ih =>
    obtain ⟨us, hus, hne, hyields⟩ := ih hn
    exact ⟨us, List.infix_cons hus, hne, hyields⟩
  | @cons m ms ts rest hm hne _ ih =>
    rcases List.mem_cons.1 hn with rfl | hn
    · exact ⟨ts, List.infix_append' [] ts rest, hne, hm⟩
    · obtain ⟨us, hus, hus', hyields⟩ := ih hn
      exact ⟨us, hus.trans (List.suffix_append ts rest).isInfix, hus', hyields⟩

/-- A row of items is laid out if each of its items is. -/
theorem of_sequence {α : Type} {D : α → List Token → Prop} {node : α → Node}
    (hD : ∀ a ts, D a ts → Laid [node a] ts) {as : List α} (h : Sequence D as ts) :
    Laid (as.map node) ts := by
  induction h with
  | nil => exact .nil
  | cons ha _ ih => exact (hD _ _ ha).append ih

theorem of_statements {body : List Stmt} (h : Sequence Stmt.Yields body ts) :
    Laid (body.map .stmt) ts := by
  have hitem : ∀ (s : Stmt) (ts : List Token), s.Yields ts → Laid [.stmt s] ts :=
    fun s ts hs => .last hs hs.ne_nil
  exact of_sequence hitem h

theorem of_arguments {args : List Expr} (h : Separated Expr.Yields args ts) :
    Laid (args.map .expr) ts := by
  have hitem : ∀ (e : Expr) (ts : List Token), AfterComma Expr.Yields e ts → Laid [.expr e] ts := by
    rintro e _ ⟨_, he⟩
    exact .skip (.last he he.ne_nil)
  cases h with
  | full he hs => exact .cons he he.ne_nil (of_sequence hitem hs)
  | bare hs => exact of_sequence hitem hs

end Laid

/-- An expression stands where its first token does. -/
theorem Expr.Yields.head {e : Expr} {ts : List Token} : e.Yields ts → some e.pos = ts.head?.map Token.pos
  | .literal _ | .name _ | .group _ _ _ | .negate _ _ | .function _ _ _ _ _ => rfl
  | .binary hleft _ _ | .call hleft _ _ _ => by
    have hhead := hleft.head
    rw [List.head?_append, Option.map_or, ← hhead]
    rfl

theorem Expr.Yields.laid {e : Expr} {ts : List Token} (h : e.Yields ts) :
    Laid (Node.expr e).children ts := by
  cases h with
  | literal _ => exact .nil
  | name _ => exact .nil
  | group _ he _ => exact .skip (.cons he he.ne_nil .nil)
  | negate _ he => exact .skip (.last he he.ne_nil)
  | binary hl _ hr => exact .cons hl hl.ne_nil (.skip (.last hr hr.ne_nil))
  | call hf _ ha _ => exact .cons hf hf.ne_nil (.skip ((Laid.of_arguments ha).ahead _))
  | function _ _ _ _ hb => exact .skip (.skip (.after _ (.skip (.last hb hb.ne_nil))))

/-- The tokens begin where the node stands, and its children are laid out in them. -/
structure Node.Spread (n : Node) (ts : List Token) : Prop where
  pos : n.pos? = ts.head?.map Token.pos
  laid : Laid n.children ts

/-- A statement is spread over its tokens; only a block leaves out the first of them, its bracket. -/
theorem Stmt.Yields.spread {s : Stmt} {ts : List Token} (h : s.Yields ts) :
    ∃ inside, inside <:+ ts ∧ inside ≠ [] ∧ (Node.stmt s).Spread inside := by
  have hall : (Node.stmt s).Spread ts → ∃ inside, inside <:+ ts ∧ inside ≠ [] ∧ (Node.stmt s).Spread inside :=
    fun hspread => ⟨ts, List.suffix_rfl, h.ne_nil, hspread⟩
  cases h with
  | expr he => exact hall ⟨he.head, .last he he.ne_nil⟩
  | @block start stop body us _ hs _ =>
    exact ⟨us ++ [stop], List.suffix_cons _ _, by simp, rfl, (Laid.of_statements hs).ahead _⟩
  | ret _ he => exact hall ⟨rfl, .skip (.last he he.ne_nil)⟩
  | assign _ _ he => exact hall ⟨rfl, .skip (.skip (.last he he.ne_nil))⟩
  | cond _ _ ht _ hy =>
    exact hall ⟨rfl, .skip (.skip (.cons ht ht.ne_nil (.skip (.last hy hy.ne_nil))))⟩
  | condElse _ _ ht _ hy _ hn =>
    exact hall ⟨rfl, .skip (.skip (.cons ht ht.ne_nil
      (.skip (.cons hy hy.ne_nil (.skip (.last hn hn.ne_nil))))))⟩

/-- **A node begins at one of its tokens, and from there on its children are laid out.** -/
theorem Node.Yields.spread {n : Node} {ts : List Token} (h : n.Yields ts) :
    ∃ inside, inside <:+ ts ∧ (inside = [] → ts = []) ∧ n.Spread inside := by
  cases n with
  | expr e => exact ⟨ts, List.suffix_rfl, id, Expr.Yields.head h, Expr.Yields.laid h⟩
  | stmt s =>
    obtain ⟨inside, hinside, hne, hspread⟩ := Stmt.Yields.spread h
    exact ⟨inside, hinside, fun hnil => absurd hnil hne, hspread⟩
  | program p => exact ⟨ts, List.suffix_rfl, id, h.pos, Laid.of_statements h.statements⟩

/-- A node with tokens stands where one of them does. -/
theorem Node.Yields.place {n : Node} {ts : List Token} (h : n.Yields ts) (hne : ts ≠ []) :
    ∃ t ∈ ts, n.pos? = some t.pos := by
  obtain ⟨inside, hinside, hnil, hspread⟩ := h.spread
  cases inside with
  | nil => exact absurd (hnil rfl) hne
  | cons t inside => exact ⟨t, hinside.subset List.mem_cons_self, hspread.pos⟩

/-- Each node of a tree has a stretch of the tokens of the root, and only the root can do without. -/
theorem Node.Inside.stretch {root n : Node} {ts : List Token} (h : root.Inside n) (hroot : root.Yields ts) :
    ∃ us, us <:+: ts ∧ n.Yields us ∧ (us = [] → n = root ∧ ts = []) := by
  induction h with
  | root => exact ⟨ts, List.infix_rfl, hroot, fun hnil => ⟨rfl, hnil⟩⟩
  | child _ hc ih =>
    obtain ⟨us, hus, hyields, -⟩ := ih
    obtain ⟨inside, hinside, -, hspread⟩ := hyields.spread
    obtain ⟨vs, hvs, hne, hchild⟩ := hspread.laid.stretch hc
    exact ⟨vs, hvs.trans (hinside.isInfix.trans hus), hchild, fun hnil => absurd hnil hne⟩

/-! ### The order of nodes -/

/-- Each token stands behind the ones before it. -/
def Ascending (ts : List Token) : Prop := ts.Pairwise fun t u => t.pos < u.pos

theorem Ascending.infix {ts us : List Token} (h : Ascending ts) (hus : us <:+: ts) : Ascending us :=
  List.Pairwise.sublist hus.sublist h

theorem tokenize_ascending {mode : Mode} {source : String} {tokens : List Token}
    (h : tokenize mode source = .ok tokens) : Ascending tokens :=
  ((Token.row_of_ofPieces h).ascending fun _ hpiece => chars_ne_nil_of_mem_cut hpiece).2

section

variable {n : Node} {ns : List Node} {ts : List Token}

theorem Laid.place (h : Laid ns ts) (hn : n ∈ ns) : ∃ t ∈ ts, n.pos? = some t.pos := by
  obtain ⟨us, hus, hne, hyields⟩ := h.stretch hn
  obtain ⟨t, ht, hpos⟩ := hyields.place hne
  exact ⟨t, hus.subset ht, hpos⟩

/-- Nodes that are laid out one after the other stand one behind the other. -/
theorem Laid.before (h : Laid ns ts) (hts : Ascending ts) : ns.Pairwise Node.Before := by
  induction h with
  | nil => exact .nil
  | skip _ ih => exact ih (List.pairwise_cons.1 hts).2
  | @cons n ns ts us hn hne hothers ih =>
    obtain ⟨-, hus, hacross⟩ := List.pairwise_append.1 hts
    refine List.pairwise_cons.2 ⟨fun m hm => ?_, ih hus⟩
    obtain ⟨t, ht, hpos⟩ := hn.place hne
    obtain ⟨u, hu, hpos'⟩ := hothers.place hm
    exact ⟨t.pos, u.pos, hpos, hpos', hacross t ht u hu⟩

/-- A node does not stand behind its children. -/
theorem Node.Spread.notBehind (h : n.Spread ts) (hts : Ascending ts) {c : Node} (hc : c ∈ n.children) :
    n.NotBehind c := by
  obtain ⟨u, hu, hpos⟩ := h.laid.place hc
  cases ts with
  | nil => exact absurd hu List.not_mem_nil
  | cons t ts =>
    refine ⟨t.pos, u.pos, h.pos, hpos, ?_⟩
    rcases List.mem_cons.1 hu with rfl | hu
    · exact Nat.le_refl _
    · exact Nat.le_of_lt ((List.pairwise_cons.1 hts).1 u hu)

end

/-! ### The text at an offset -/

/-- The text of a kind that only one symbol has. -/
def Kind.symbol? : Kind → Option String
  | .assign => some "="
  | .openParen => some "("
  | .closeParen => some ")"
  | .openCurly => some "\x7b"
  | .closeCurly => some "\x7d"
  | .comma => some ","
  | .negate => some "!"
  | _ => none

namespace Token

variable {text : String} {t : Token}

theorem kindOf_symbol {kind : Kind} {symbol : String} (h : symbol ∈ Shape.symbols)
    (hkind : Lexicon.standard.kindOf symbol = .ok kind) (htext : kind.symbol? = some text) :
    symbol = text := by
  have hall : ∀ symbol ∈ Shape.symbols, ∀ kind ∈ Lexicon.standard.symbols.lookup symbol,
      ∀ text ∈ kind.symbol?, symbol = text := by decide
  rw [Lexicon.kindOf] at hkind
  split at hkind
  · next hlookup =>
    cases hkind
    exact hall symbol h _ hlookup text htext
  · cases hkind

/-- A token of the kind of a symbol is that symbol. -/
theorem ofPiece_symbol {piece : Piece} (hpiece : piece.Sound) {pos : Nat}
    (h : ofPiece .standard .strict piece pos = .ok t) (htext : t.kind.symbol? = some text) :
    t.text = text := by
  have hplace := ofPiece_place h
  rw [ofPiece] at h
  cases hshape : piece.shape with
  | symbol =>
    obtain ⟨kind, hkind, _⟩ := kindOf_standard (hpiece hshape)
    simp only [hshape, hkind] at h
    rw [make_kind h] at htext
    rw [hplace.2]
    exact kindOf_symbol (hpiece hshape) hkind htext
  | openComment =>
    simp only [hshape] at h
    cases hmake : make .standard .comment (String.ofList piece.chars) pos .null (Kind.unnamed rfl) with
    | error stop =>
      rw [hmake] at h
      cases h
    | ok made =>
      rw [hmake] at h
      cases h
      rw [unclosed, make_kind hmake] at htext
      cases htext
  | openString =>
    simp only [hshape] at h
    cases h
  | number =>
    simp only [hshape] at h
    split at h
    · rw [make_kind h] at htext
      cases htext
    · cases h
  | _ =>
    simp only [hshape] at h
    rw [make_kind h] at htext
    cases htext

end Token

/-- **A token of the kind of a symbol is that symbol.** -/
theorem tokenize_symbols {source : String} {tokens : List Token}
    (h : tokenize .strict source = .ok tokens) {t : Token} (ht : t ∈ tokens) {text : String}
    (htext : t.kind.symbol? = some text) : t.text = text := by
  obtain ⟨piece, hpiece, hmade⟩ := Token.ofPiece_of_mem h ht
  exact Token.ofPiece_symbol (sound_of_mem_cut hpiece) hmade htext

/-- A token of the kind and text stands at the offset, and the source has that text there. -/
def Spelled (source : String) (tokens : List Token) (kind : Kind) (text : String) (pos : Nat) : Prop :=
  (∃ t ∈ tokens, t.kind = kind ∧ t.text = text ∧ t.pos = pos) ∧ text.toList <+: source.toList.drop pos

theorem Tiles.spelled {source : String} {tokens : List Token} (h : Tiles source tokens) {t : Token}
    (ht : t ∈ tokens) : Spelled source tokens t.kind t.text t.pos := by
  refine ⟨⟨t, ht, rfl, rfl, rfl⟩, ?_⟩
  rw [← h.covered t ht, List.drop_take]
  exact List.take_prefix _ _

/-- What the offset of a node leads to. -/
def Node.Placed (source : String) (tokens : List Token) : Node → Prop
  | .expr (.literal pos value) =>
    ∃ t ∈ tokens, t.kind.isLiteral = true ∧ t.value = value ∧ t.pos = pos ∧
      Spelled source tokens t.kind t.text pos
  | .expr (.name pos id) => Spelled source tokens .identifier id pos
  | .expr (.group pos _) => Spelled source tokens .openParen "(" pos
  | .expr (.negate pos _) => Spelled source tokens .negate "!" pos
  | .expr (.binary pos _ left _) => pos = left.pos
  | .expr (.call pos callee _) => pos = callee.pos
  | .expr (.function pos _ _) => Spelled source tokens .identifier "function" pos
  | .stmt (.expr e) => (Stmt.expr e).pos = some e.pos
  -- the block is read off an opening bracket and the significant tokens that follow it
  | .stmt (.block pos body) =>
    ∃ start first more, (start :: first :: more) <:+: significant tokens ∧
      (Stmt.block pos body).Yields (start :: first :: more) ∧
      Spelled source tokens .openCurly "\x7b" start.pos ∧ pos = some first.pos
  | .stmt (.ret pos _) => Spelled source tokens .identifier "return" pos
  | .stmt (.assign pos target _) => Spelled source tokens .identifier target pos
  | .stmt (.cond pos _ _ _) => Spelled source tokens .identifier "if" pos
  | .program p => p.pos = (significant tokens).head?.map Token.pos

section

variable {source : String} {tokens : List Token}

theorem spelled_word (h : tokenize .strict source = .ok tokens) {t : Token} (ht : t ∈ tokens)
    {text : String} (hword : t.IsWord text) : Spelled source tokens .identifier text t.pos := by
  obtain ⟨hkind, rfl⟩ := hword
  rw [← hkind]
  exact (tokenize_tiles h).spelled ht

/-- In a text, what stands for a name is spelled like it. -/
theorem spelled_name (h : tokenize .strict source = .ok tokens) {t : Token} (ht : t ∈ tokens)
    {name : String} (hname : t.IsName name) : Spelled source tokens .identifier name t.pos := by
  have hspelled : t.text = t.name := (tokenize_sound h ht).spelled (by rw [hname.1]; rfl)
  exact spelled_word h ht ⟨hname.1, hspelled.trans hname.name_eq⟩

theorem spelled_symbol (h : tokenize .strict source = .ok tokens) {t : Token} (ht : t ∈ tokens)
    {kind : Kind} (hkind : t.kind = kind) {text : String} (htext : kind.symbol? = some text) :
    Spelled source tokens kind text t.pos := by
  subst hkind
  rw [← tokenize_symbols h ht htext]
  exact (tokenize_tiles h).spelled ht

theorem Expr.Yields.placed (h : tokenize .strict source = .ok tokens) {e : Expr} {ts : List Token}
    (hts : ts ⊆ tokens) (he : e.Yields ts) : (Node.expr e).Placed source tokens := by
  cases he with
  | @literal t hkind =>
    have ht : t ∈ tokens := hts List.mem_cons_self
    exact ⟨t, ht, hkind, rfl, rfl, (tokenize_tiles h).spelled ht⟩
  | name hname => exact spelled_name h (hts List.mem_cons_self) hname
  | group hopen _ _ => exact spelled_symbol h (hts List.mem_cons_self) hopen rfl
  | negate hbang _ => exact spelled_symbol h (hts List.mem_cons_self) hbang rfl
  | binary _ _ _ => exact rfl
  | call _ _ _ _ => exact rfl
  | function hname _ _ _ _ => exact spelled_name h (hts List.mem_cons_self) hname

theorem Stmt.Yields.placed (h : tokenize .strict source = .ok tokens) {s : Stmt} {ts : List Token}
    (hts : ts <:+: significant tokens) (hs : s.Yields ts) : (Node.stmt s).Placed source tokens := by
  have hmem : ∀ t ∈ ts, t ∈ tokens := fun t ht => (List.mem_filter.1 (hts.subset ht)).1
  cases hs with
  | expr _ => exact rfl
  | @block start stop body us hopen hbody hclose =>
    have hyields := Stmt.Yields.block hopen hbody hclose
    have hstart := spelled_symbol h (hmem start List.mem_cons_self) hopen rfl
    obtain ⟨first, more, hfirst⟩ := List.exists_cons_of_ne_nil (l := us ++ [stop]) (by simp)
    rw [hfirst] at hts hyields ⊢
    exact ⟨start, first, more, hts, hyields, hstart, rfl⟩
  | ret hword _ => exact spelled_word h (hmem _ List.mem_cons_self) hword
  | assign hname _ _ => exact spelled_name h (hmem _ List.mem_cons_self) hname
  | cond hword _ _ _ _ => exact spelled_word h (hmem _ List.mem_cons_self) hword
  | condElse hword _ _ _ _ _ _ => exact spelled_word h (hmem _ List.mem_cons_self) hword

end

/-! ### Trees of texts -/

/-- **In the tree of any text, every node is placed.**  A node does not stand behind its children, these
stand one behind the other, and only a text without significant tokens has no offset. -/
theorem nodes_placed (room : Nat) (source : String) (p : Program)
    (h : Program.parse room source = .ok p) :
    ∃ tokens, tokenize .strict source = .ok tokens ∧ ∀ n, (Node.program p).Inside n →
      n.Placed source tokens ∧ (∀ c ∈ n.children, n.NotBehind c) ∧ n.children.Pairwise Node.Before ∧
        (n.pos? = none → n = .program p ∧ significant tokens = []) := by
  obtain ⟨tokens, htokens, hparse⟩ := Program.parse_ok h
  have hyields : (Node.program p).Yields (significant tokens) :=
    unlimited_yields (unlimited_of_ofTokensWithin hparse)
  have hascending : Ascending (significant tokens) :=
    List.Pairwise.sublist List.filter_sublist (tokenize_ascending htokens)
  refine ⟨tokens, htokens, fun n hn => ?_⟩
  obtain ⟨us, hus, hyields', hroot⟩ := hn.stretch hyields
  obtain ⟨inside, hinside, _, hspread⟩ := hyields'.spread
  have hinside' : Ascending inside := hascending.infix (hinside.isInfix.trans hus)
  refine ⟨?_, fun c hc => hspread.notBehind hinside' hc, hspread.laid.before hinside', fun hnone => ?_⟩
  · cases n with
    | expr e =>
      exact Expr.Yields.placed htokens (fun t ht => (List.mem_filter.1 (hus.subset ht)).1) hyields'
    | stmt s => exact Stmt.Yields.placed htokens hus hyields'
    | program q =>
      cases hn with
      | root => exact hyields.pos
      | child _ hc => exact absurd hc Node.program_not_mem_children
  · cases us with
    | nil => exact hroot rfl
    | cons t us =>
      obtain ⟨u, -, hpos⟩ := hyields'.place (List.cons_ne_nil t us)
      rw [hnone] at hpos
      cases hpos

/-- A text with a block, a condition, a call, literals and a comment. -/
def layeredText : String := "if (a) \x7b /* b */ f(1, !true) \x7d\nelse \x7b\x7d"

theorem nodes_placed_layered :
    ∃ p tokens, Program.parse callLimit layeredText = .ok p ∧ p.pos = some 0 ∧
      tokenize .strict layeredText = .ok tokens ∧
      ∀ n, (Node.program p).Inside n → n.Placed layeredText tokens := by
  have h : (Program.parse callLimit layeredText).toOption.bind Program.pos = some 0 := by decide +kernel
  obtain ⟨p, hsome, hpos⟩ := Option.bind_eq_some_iff.1 h
  have hp : Program.parse callLimit layeredText = .ok p := by
    cases hparse : Program.parse callLimit layeredText with
    | error stop =>
      rw [hparse] at hsome
      cases hsome
    | ok q =>
      rw [hparse] at hsome
      cases hsome
      rfl
  obtain ⟨tokens, htokens, hplaced⟩ := nodes_placed callLimit layeredText p hp
  exact ⟨p, tokens, hp, hpos, htokens, fun n hn => (hplaced n hn).1⟩

end Klex
