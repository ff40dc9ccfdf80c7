import Klex.Operator
import Klex.Proofs.Grammar.Soundness
import Klex.Proofs.Tree.Nodes

/-!
# Tokens of the language itself

The lexicon of the language has no gaps, so cutting a text into tokens fails only with failures of the
script, and what the tokens stand for is bounded.

* **`Piece.Sound`**, **`sound_of_mem_cut`** — a piece with the shape of a symbol is a symbol.
* **`Token.Sound`** — a whole number that the token stands for is in range, an operator is one that there
  is, and identifiers and operators are called what they are spelled.
* **`tokenize_strict`** — **the tokens of any text are sound, or the text is at fault.**
* **`parse_sound`** — **so the literals of a program are in range, and its operators are all defined.**
-/

namespace Klex

/-- The whole numbers that a literal can stand for. -/
def Literal.InRange (n : Int) : Prop := 0 ≤ n ∧ n ≤ Literal.maxInt

/-- A result with a property, or a failure of the script; never a fault. -/
def Unfaulted {α : Type} (good : α → Prop) : Except Stop α → Prop
  | .ok a => good a
  | .error (.failure _) => True
  | .error (.fault _) => False

theorem Unfaulted.bind {α β : Type} {good : α → Prop} {good' : β → Prop} {x : Except Stop α}
    {f : α → Except Stop β} (hx : Unfaulted good x) (hf : ∀ a, good a → Unfaulted good' (f a)) :
    Unfaulted good' (x >>= f) := by
  cases x with
  | ok a => exact hf a hx
  | error stop =>
    cases stop with
    | failure f => trivial
    | fault f => exact hx.elim

/-! ### Pieces -/

/-- A piece that has the shape of a symbol is a symbol. -/
def Piece.Sound (piece : Piece) : Prop :=
  piece.shape = .symbol → String.ofList piece.chars ∈ Shape.symbols

theorem Shape.take_of_word? {word : String} {cs : List Char} {n : Nat}
    (h : Shape.word? word cs = some n) : String.ofList (cs.take n) = word := by
  rw [Shape.word?] at h
  split at h
  · next hpre =>
    simp only [Option.some.injEq] at h
    obtain ⟨rest, rfl⟩ := List.isPrefixOf_iff_prefix.1 hpre
    rw [← h, ← String.length_toList, List.take_left, String.ofList_toList]
  · simp at h

theorem Shape.first_symbol {cs : List Char} {n : Nat} (h : Shape.first cs = (.symbol, n)) :
    String.ofList (cs.take n) ∈ Shape.symbols := by
  rw [Shape.first] at h
  cases hfind : Shape.order.findSome? fun shape => (shape.measure cs).map (shape, ·) with
  | none => simp [hfind] at h
  | some found =>
    rw [hfind, Option.getD_some] at h
    obtain ⟨shape, _, hmeasure⟩ := List.exists_of_findSome?_eq_some hfind
    obtain ⟨size, hsize, heq⟩ := Option.map_eq_some_iff.1 hmeasure
    rw [h, Prod.mk.injEq] at heq
    rw [heq.1, heq.2] at hsize
    obtain ⟨word, hword, hlength⟩ := List.exists_of_findSome?_eq_some hsize
    rw [Shape.take_of_word? hlength]
    exact hword

theorem sound_of_mem_cutAtMost {n : Nat} {cs : List Char} {piece : Piece}
    (h : piece ∈ cutAtMost n cs) : piece.Sound := by
  induction n generalizing cs with
  | zero => simp [cutAtMost] at h
  | succ n ih =>
    cases cs with
    | nil => simp [cutAtMost] at h
    | cons c cs =>
      rw [cutAtMost] at h
      rcases List.mem_cons.1 h with rfl | h
      · intro hshape
        exact Shape.first_symbol (Prod.ext hshape rfl)
      · exact ih h
      · simp

theorem sound_of_mem_cut {cs : List Char} {piece : Piece} (h : piece ∈ cut cs) : piece.Sound :=
  sound_of_mem_cutAtMost h

/-! ### Tokens -/

namespace Token

/-- Whole numbers are in range, operators are those that there are, and what is called something is
spelled so. -/
structure Sound (t : Token) : Prop where
  int : ∀ n, t.value = .int n → Literal.InRange n
  operator : t.kind = .operator → (Operator.ofSymbol? t.name).isSome = true
  spelled : t.kind.isNamed = true → t.text = t.name

/-- The lexicon has a colour for every class. -/
theorem make_standard (kind : Kind) (text : String) (pos : Nat) (value : Literal)
    (named : kind.isNamed = true → value.isText = true) :
    ∃ color, make .standard kind text pos value named
      = .ok ⟨kind, text, pos, value, color, true, named⟩ := by
  have hcolor : ∀ c : ColorClass, ∃ color, Lexicon.standard.colors.lookup c = some color := by
    intro c
    cases c <;> exact ⟨_, rfl⟩
  rw [make, Lexicon.colorOf]
  cases Lexicon.standard.colorClass? kind text with
  | none => exact ⟨none, rfl⟩
  | some c =>
    obtain ⟨color, hc⟩ := hcolor c
    exact ⟨some color, by simp only [hc]⟩

theorem make_unfaulted {kind : Kind} {text : String} {pos : Nat} {value : Literal}
    {named : kind.isNamed = true → value.isText = true}
    (h : ∀ color, Sound ⟨kind, text, pos, value, color, true, named⟩) :
    Unfaulted Sound (make .standard kind text pos value named) := by
  obtain ⟨color, hmake⟩ := make_standard kind text pos value named
  rw [hmake]
  exact h color

theorem numberValue?_range {cs : List Char} {l : Literal} (h : numberValue? cs = some l) (n : Int)
    (hl : l = .int n) : Literal.InRange n := by
  subst hl
  rw [numberValue?] at h
  split at h
  · next hsmall =>
    simp only [Bool.and_eq_true, decide_eq_true_eq] at hsmall
    simp only [Option.some.injEq, Literal.int.injEq] at h
    have hle := hsmall.2
    rw [Literal.InRange]
    omega
  · obtain ⟨x, _, hx⟩ := Option.map_eq_some_iff.1 h
    simp at hx

/-- The lexicon has a kind for every symbol, and takes for operators those that there are. -/
theorem kindOf_standard {text : String} (h : text ∈ Shape.symbols) :
    ∃ kind, Lexicon.standard.kindOf text = .ok kind ∧
      (kind = .operator → (Operator.ofSymbol? text).isSome = true) := by
  have hall : ∀ text ∈ Shape.symbols, ∀ kind ∈ Lexicon.standard.symbols.lookup text,
      kind = .operator → (Operator.ofSymbol? text).isSome = true := by decide
  have hsome : ∀ text ∈ Shape.symbols, (Lexicon.standard.symbols.lookup text).isSome = true := by
    decide
  obtain ⟨kind, hkind⟩ := Option.isSome_iff_exists.1 (hsome text h)
  refine ⟨kind, ?_, hall text h kind hkind⟩
  rw [Lexicon.kindOf, hkind]

theorem Sound.of_unnamed {t : Token} (hkind : t.kind.isNamed = false)
    (hint : ∀ n, t.value = .int n → Literal.InRange n) : t.Sound where
  int := hint
  operator := by
    intro hoperator
    rw [hoperator] at hkind
    cases hkind
  spelled := Kind.unnamed hkind

theorem ofPiece_strict {piece : Piece} (hpiece : piece.Sound) (pos : Nat) :
    Unfaulted Sound (ofPiece .standard .strict piece pos) := by
  rw [ofPiece]
  cases hshape : piece.shape with
  | whitespace => exact make_unfaulted fun _ => .of_unnamed rfl (by simp)
  | comment => exact make_unfaulted fun _ => .of_unnamed rfl (by simp)
  | openComment =>
    obtain ⟨color, hmake⟩ := make_standard .comment (String.ofList piece.chars) pos .null
      (Kind.unnamed rfl)
    show Unfaulted Sound ((make _ _ _ _ _ _).map unclosed)
    rw [hmake]
    exact .of_unnamed rfl (by simp [unclosed])
  | boolean => exact make_unfaulted fun _ => .of_unnamed rfl (by simp)
  | null => exact make_unfaulted fun _ => .of_unnamed rfl (by simp)
  | identifier => exact make_unfaulted fun _ => ⟨by simp, by simp, fun _ => rfl⟩
  | string => exact make_unfaulted fun _ => .of_unnamed rfl (by simp)
  | openString => trivial
  | number =>
    cases hvalue : numberValue? piece.chars with
    | none => trivial
    | some value => exact make_unfaulted fun _ => .of_unnamed rfl (numberValue?_range hvalue)
  | symbol =>
    obtain ⟨kind, hkind, hoperator⟩ := kindOf_standard (hpiece hshape)
    simp only [hkind]
    exact make_unfaulted fun _ => ⟨by simp, hoperator, fun _ => rfl⟩
  | unknown => exact make_unfaulted fun _ => .of_unnamed rfl (by simp)

theorem ofPieces_strict {pieces : List Piece} (hpieces : ∀ piece ∈ pieces, piece.Sound) (pos : Nat) :
    Unfaulted (fun tokens => ∀ t ∈ tokens, t.Sound) (ofPieces .standard .strict pos pieces) := by
  induction pieces generalizing pos with
  | nil => exact fun t ht => absurd ht List.not_mem_nil
  | cons piece pieces ih =>
    have hall := List.forall_mem_cons.1 hpieces
    rw [ofPieces]
    refine (ofPiece_strict hall.1 pos).bind fun t ht => ?_
    refine (ih hall.2 _).bind fun tokens htokens => ?_
    exact List.forall_mem_cons.2 ⟨ht, htokens⟩

end Token

/-- **The tokens of any text are sound, or the text is at fault.** -/
theorem tokenize_strict (source : String) :
    Unfaulted (fun tokens => ∀ t ∈ tokens, t.Sound) (tokenize .strict source) :=
  Token.ofPieces_strict (fun _ hpiece => sound_of_mem_cut hpiece) 0

theorem tokenize_sound {source : String} {tokens : List Token}
    (h : tokenize .strict source = .ok tokens) {t : Token} (ht : t ∈ tokens) : t.Sound := by
  have hall := tokenize_strict source
  rw [h] at hall
  exact hall t ht

/-! ### Programs -/

/-- The literals of a program are in range, and its operators are all defined. -/
structure Program.Sound (p : Program) : Prop where
  int : ∀ {pos n}, Expr.literal pos (.int n) ∈ p.nodes → Literal.InRange n
  operator : ∀ {pos op left right}, Expr.binary pos op left right ∈ p.nodes →
    (Operator.ofSymbol? op).isSome = true

theorem Program.sound_of_ofTokens {room : Nat} {tokens : List Token}
    (htokens : ∀ t ∈ tokens, t.Sound) {p : Program} (h : Program.ofTokens room tokens = .ok p) :
    p.Sound := by
  have hyields : p.Yields (Grammar.significant tokens) :=
    Grammar.unlimited_yields (Grammar.unlimited_of_ofTokensWithin h)
  have hsound : ∀ t ∈ Grammar.significant tokens, t.Sound :=
    fun t ht => htokens t (List.mem_filter.1 ht).1
  refine ⟨fun {pos n} hx => ?_, fun {pos op left right} hx => ?_⟩
  · obtain ⟨t, ht, _, hvalue⟩ := hyields.nodes.literal hx
    exact (hsound t ht).int n hvalue
  · obtain ⟨t, ht, hop⟩ := hyields.nodes.operator hx
    exact hop.name_eq ▸ (hsound t ht).operator hop.1

/-- **A parsed program is sound, and a text that cannot be parsed is itself at fault.** -/
theorem parse_sound (room : Nat) (source : String) :
    Unfaulted Program.Sound (Program.parse room source) := by
  have htokens := tokenize_strict source
  rw [Program.parse]
  cases hrun : tokenize .strict source with
  | error stop =>
    rw [hrun] at htokens
    cases stop with
    | failure f => trivial
    | fault f => exact htokens.elim
  | ok tokens =>
    rw [hrun] at htokens
    dsimp only
    cases hparse : Program.ofTokens (Grammar.roomForRules room) tokens with
    | ok p => exact Program.sound_of_ofTokens htokens hparse
    | error failure => trivial

end Klex
