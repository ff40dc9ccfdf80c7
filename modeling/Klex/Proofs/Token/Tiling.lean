import Klex.Highlight
import Klex.Proofs.Token.Pattern
import Klex.Proofs.Token.Standard

/-!
# Tokens tile the text

* **`Token.Row`** — tokens side by side from an offset on, with the texts of given pieces.
* **`Token.row_of_ofPieces`** — whatever the lexicon and the mode, the tokens of pieces are such a row.
* **`Piece.flaw?`** — what is wrong with a piece, if it is no token of the language.
* **`Token.ofPiece_standard`** — **the language has a tolerant token for every piece, and the same token in
  strict mode unless the piece has a flaw.**
* **`Tiles`** — tokens cover a text from start to end, without gaps and overlaps, in pieces that the
  patterns choose.
* **`tokenize_lossless`** — **tolerant tokens exist for every text and tile it; so do strict ones, where
  there are any; and the coloured spans make up the text.**
-/

namespace Klex

/-! ### Pieces of a text -/

/-- Every piece is what the first shape that fits takes off the rest of the text. -/
theorem first_of_mem_cut {cs : List Char} {piece : Piece} (h : piece ∈ cut cs) :
    ∃ left, left ≠ [] ∧ piece = ⟨(Shape.first left).1, left.take (Shape.first left).2⟩ := by
  have hcuts : Cuts cs (cut cs) := cuts_iff.2 rfl
  generalize cut cs = pieces at h hcuts
  induction hcuts with
  | nil => exact absurd h List.not_mem_nil
  | @cons shape chars rest pieces hfirst hothers ih =>
    rcases List.mem_cons.1 h with rfl | h
    · obtain ⟨hne, hhead⟩ := (Cuts.cons hfirst hothers).head
      exact ⟨chars ++ rest, hne, hhead⟩
    · exact ih h

theorem chars_ne_nil_of_mem_cut {cs : List Char} {piece : Piece} (h : piece ∈ cut cs) :
    piece.chars ≠ [] := by
  obtain ⟨left, hleft, rfl⟩ := first_of_mem_cut h
  have hpos := Shape.first_pos left
  intro hnil
  rcases List.take_eq_nil_iff.1 hnil with hzero | hempty
  · exact absurd hzero (Nat.pos_iff_ne_zero.1 hpos)
  · exact hleft hempty

namespace Token

/-! ### Rows of tokens -/

/-- Tokens side by side, the first at an offset, with the texts of pieces. -/
inductive Row : Nat → List Piece → List Token → Prop
  | nil {pos : Nat} : Row pos [] []
  | cons {piece : Piece} {pieces : List Piece} {t : Token} {tokens : List Token}
      (text : t.text = String.ofList piece.chars) (others : Row t.stop pieces tokens) :
      Row t.pos (piece :: pieces) (t :: tokens)

section

variable {lex : Lexicon} {kind : Kind} {text : String} {pos : Nat} {value : Literal}
  {named : kind.isNamed = true → value.isText = true} {t : Token}

theorem make_place (h : make lex kind text pos value named = .ok t) : t.pos = pos ∧ t.text = text := by
  rw [make] at h
  split at h
  · cases h
    exact ⟨rfl, rfl⟩
  · cases h

theorem make_kind (h : make lex kind text pos value named = .ok t) : t.kind = kind := by
  rw [make] at h
  split at h
  · cases h
    rfl
  · cases h

end

theorem reject_made {lex : Lexicon} {mode : Mode} {text : String} {pos : Nat} {cause : Cause}
    {t : Token} (h : reject lex mode text pos cause = .ok t) :
    make lex .unknown text pos .null (Kind.unnamed rfl) = .ok t := by
  cases mode with
  | strict => cases h
  | tolerant => exact h

/-- The token of a piece is made with some kind and value, and may then be marked as cut off. -/
theorem ofPiece_made {lex : Lexicon} {mode : Mode} {piece : Piece} {pos : Nat} {t : Token}
    (h : ofPiece lex mode piece pos = .ok t) :
    ∃ kind value named made, make lex kind (String.ofList piece.chars) pos value named = .ok made ∧
      (t = made ∨ t = made.unclosed) := by
  rw [ofPiece] at h
  cases hshape : piece.shape with
  | openComment =>
    simp only [hshape] at h
    cases hmake : make lex .comment (String.ofList piece.chars) pos .null (Kind.unnamed rfl) with
    | error stop =>
      rw [hmake] at h
      cases h
    | ok made =>
      rw [hmake] at h
      cases h
      exact ⟨_, _, _, made, hmake, .inr rfl⟩
  | openString =>
    simp only [hshape] at h
    exact ⟨_, _, _, t, reject_made h, .inl rfl⟩
  | number =>
    simp only [hshape] at h
    split at h
    · exact ⟨_, _, _, t, h, .inl rfl⟩
    · exact ⟨_, _, _, t, reject_made h, .inl rfl⟩
  | symbol =>
    simp only [hshape] at h
    split at h
    · exact ⟨_, _, _, t, h, .inl rfl⟩
    · cases h
  | _ =>
    simp only [hshape] at h
    exact ⟨_, _, _, t, h, .inl rfl⟩

/-- A token stands where its piece does and has its text. -/
theorem ofPiece_place {lex : Lexicon} {mode : Mode} {piece : Piece} {pos : Nat} {t : Token}
    (h : ofPiece lex mode piece pos = .ok t) :
    t.pos = pos ∧ t.text = String.ofList piece.chars := by
  obtain ⟨kind, value, named, made, hmake, ht⟩ := ofPiece_made h
  obtain ⟨hpos, htext⟩ := make_place hmake
  rcases ht with rfl | rfl <;> exact ⟨hpos, htext⟩

theorem ofPieces_cons_ok {lex : Lexicon} {mode : Mode} {pos : Nat} {piece : Piece}
    {pieces : List Piece} {tokens : List Token} :
    ofPieces lex mode pos (piece :: pieces) = .ok tokens ↔
      ∃ t others, ofPiece lex mode piece pos = .ok t ∧
        ofPieces lex mode (pos + piece.chars.length) pieces = .ok others ∧ tokens = t :: others := by
  rw [ofPieces]
  cases hpiece : ofPiece lex mode piece pos with
  | error stop => simp [bind, Except.bind]
  | ok t =>
    cases hothers : ofPieces lex mode (pos + piece.chars.length) pieces with
    | error stop => simp [bind, Except.bind]
    | ok others => simp [bind, Except.bind, pure, Except.pure, eq_comm]

theorem row_of_ofPieces {lex : Lexicon} {mode : Mode} {pos : Nat} {pieces : List Piece}
    {tokens : List Token} (h : ofPieces lex mode pos pieces = .ok tokens) : Row pos pieces tokens := by
  induction pieces generalizing pos tokens with
  | nil =>
    cases h
    exact .nil
  | cons piece pieces ih =>
    obtain ⟨t, others, hpiece, hothers, rfl⟩ := ofPieces_cons_ok.1 h
    obtain ⟨rfl, htext⟩ := ofPiece_place hpiece
    have hstop : t.pos + piece.chars.length = t.stop := by
      rw [stop, htext, String.length_ofList]
    rw [hstop] at hothers
    exact .cons htext (ih hothers)

/-- Each token of a row is the token of one of the pieces. -/
theorem ofPiece_of_mem {lex : Lexicon} {mode : Mode} {pos : Nat} {pieces : List Piece}
    {tokens : List Token} (h : ofPieces lex mode pos pieces = .ok tokens) {t : Token} (ht : t ∈ tokens) :
    ∃ piece ∈ pieces, ofPiece lex mode piece t.pos = .ok t := by
  induction pieces generalizing pos tokens with
  | nil =>
    cases h
    exact absurd ht List.not_mem_nil
  | cons piece pieces ih =>
    obtain ⟨u, others, hpiece, hothers, rfl⟩ := ofPieces_cons_ok.1 h
    rcases List.mem_cons.1 ht with rfl | ht
    · obtain ⟨rfl, -⟩ := ofPiece_place hpiece
      exact ⟨piece, List.mem_cons_self, hpiece⟩
    · obtain ⟨other, hother, hmade⟩ := ih hothers ht
      exact ⟨other, List.mem_cons_of_mem _ hother, hmade⟩

section

variable {pos : Nat} {pieces : List Piece} {tokens : List Token}

theorem Row.texts (h : Row pos pieces tokens) :
    tokens.map (·.text.toList) = pieces.map Piece.chars := by
  induction h with
  | nil => rfl
  | cons htext _ ih => rw [List.map_cons, List.map_cons, ih, htext, String.toList_ofList]

theorem Row.head (h : Row pos pieces tokens) {t : Token} (ht : tokens.head? = some t) :
    t.pos = pos := by
  cases h with
  | nil => cases ht
  | cons _ _ =>
    cases ht
    rfl

theorem Row.adjacent (h : Row pos pieces tokens) {i : Nat} {t u : Token} (ht : tokens[i]? = some t)
    (hu : tokens[i + 1]? = some u) : u.pos = t.stop := by
  induction h generalizing i with
  | nil => cases ht
  | cons _ hothers ih =>
    cases i with
    | zero =>
      cases ht
      rw [List.getElem?_cons_succ, ← List.head?_eq_getElem?] at hu
      exact hothers.head hu
    | succ i => exact ih ht hu

/-- The offsets of a row ascend if none of its pieces is empty. -/
theorem Row.ascending (h : Row pos pieces tokens) (hpieces : ∀ piece ∈ pieces, piece.chars ≠ []) :
    (∀ t ∈ tokens, pos ≤ t.pos) ∧ tokens.Pairwise (fun t u => t.pos < u.pos) := by
  induction h with
  | nil => exact ⟨fun t ht => absurd ht List.not_mem_nil, .nil⟩
  | @cons piece pieces t tokens htext _ ih =>
    obtain ⟨hpiece, hothers⟩ := List.forall_mem_cons.1 hpieces
    obtain ⟨hbehind, hpairs⟩ := ih hothers
    have hlt : t.pos < t.stop := by
      rw [stop, htext, String.length_ofList]
      exact Nat.lt_add_of_pos_right (List.length_pos_iff.2 hpiece)
    have hafter : ∀ u ∈ tokens, t.pos < u.pos := fun u hu => Nat.lt_of_lt_of_le hlt (hbehind u hu)
    refine ⟨List.forall_mem_cons.2 ⟨Nat.le_refl _, fun u hu => ?_⟩, List.pairwise_cons.2 ⟨hafter, hpairs⟩⟩
    exact Nat.le_of_lt (hafter u hu)

/-- The offsets of a token cut its text out of the whole. -/
theorem Row.covered (h : Row pos pieces tokens) {before : List Char} (hbefore : before.length = pos)
    {t : Token} (ht : t ∈ tokens) :
    ((before ++ pieces.flatMap Piece.chars).take t.stop).drop t.pos = t.text.toList := by
  induction h generalizing before with
  | nil => exact absurd ht List.not_mem_nil
  | @cons piece pieces u tokens htext hothers ih =>
    rw [List.flatMap_cons]
    have hchars : u.text.toList = piece.chars := by rw [htext, String.toList_ofList]
    have hstop : u.stop = (before ++ piece.chars).length := by
      rw [stop, List.length_append, hbefore, ← hchars, String.length_toList]
    rcases List.mem_cons.1 ht with rfl | ht
    · rw [← List.append_assoc, hstop, List.take_left, ← hbefore, List.drop_left, hchars]
    · rw [← List.append_assoc]
      exact ih hstop.symm ht

end

/-! ### Tokens exist -/

end Token

/-- What is wrong with a piece at an offset, if anything is. -/
def Piece.flaw? (piece : Piece) (pos : Nat) : Option Cause :=
  match piece.shape with
  | .openString => some (.unterminatedString (pos + piece.chars.length))
  | .number =>
    if (Token.numberValue? piece.chars).isSome then none
    else some (.unreadableNumber (String.ofList piece.chars) (pos + piece.chars.length))
  | _ => none

namespace Token

/-- What strict mode makes of a piece with a given tolerant token. -/
def strictly (t : Token) : Option Cause → Except Stop Token
  | none => .ok t
  | some cause => .error (.failure ⟨cause, some t.pos⟩)

theorem make_strictly {kind : Kind} {q : Prop} (hkind : kind = .unknown ↔ q) (text : String)
    (pos : Nat) (value : Literal) (named : kind.isNamed = true → value.isText = true) :
    ∃ t, make .standard kind text pos value named = .ok t ∧
      make .standard kind text pos value named = t.strictly none ∧ (t.kind = .unknown ↔ q) := by
  obtain ⟨color, hmake⟩ := make_standard kind text pos value named
  exact ⟨_, hmake, hmake, hkind⟩

theorem reject_strictly {q : Prop} (hq : q) (text : String) (pos : Nat) (cause : Cause) :
    ∃ t, reject .standard .tolerant text pos cause = .ok t ∧
      reject .standard .strict text pos cause = t.strictly (some cause) ∧ (t.kind = .unknown ↔ q) := by
  obtain ⟨color, hmake⟩ := make_standard .unknown text pos .null (Kind.unnamed rfl)
  exact ⟨_, hmake, rfl, by simp [hq]⟩

theorem kindOf_known {text : String} {kind : Kind} (h : text ∈ Shape.symbols)
    (hkind : Lexicon.standard.kindOf text = .ok kind) : kind ≠ .unknown := by
  have hall : ∀ text ∈ Shape.symbols, ∀ kind ∈ Lexicon.standard.symbols.lookup text,
      kind ≠ .unknown := by decide
  rw [Lexicon.kindOf] at hkind
  split at hkind
  · next hlookup =>
    cases hkind
    exact hall text h _ hlookup
  · cases hkind

/-- The language has a tolerant token for every piece, and the same one in strict mode unless the piece
has a flaw. -/
theorem ofPiece_standard {piece : Piece} (hpiece : piece.Sound) (pos : Nat) :
    ∃ t, ofPiece .standard .tolerant piece pos = .ok t ∧
      ofPiece .standard .strict piece pos = t.strictly (piece.flaw? pos) ∧
      (t.kind = .unknown ↔ piece.shape = .unknown ∨ (piece.flaw? pos).isSome = true) := by
  rw [ofPiece, ofPiece, Piece.flaw?]
  cases hshape : piece.shape with
  | openComment =>
    obtain ⟨color, hmake⟩ := make_standard .comment (String.ofList piece.chars) pos .null (Kind.unnamed rfl)
    simp only [hmake]
    exact ⟨_, rfl, rfl, by simp [unclosed]⟩
  | openString => exact reject_strictly (by simp) _ _ _
  | number =>
    cases hvalue : numberValue? piece.chars with
    | none => exact reject_strictly (by simp) _ _ _
    | some value => exact make_strictly (by simp) _ _ _ _
  | symbol =>
    obtain ⟨kind, hkind, _⟩ := kindOf_standard (hpiece hshape)
    have hknown := kindOf_known (hpiece hshape) hkind
    simp only [hkind]
    exact make_strictly (by simp [hknown]) _ _ _ _
  | _ => exact make_strictly (by simp) _ _ _ _

/-- Every row of pieces has tolerant tokens. -/
theorem ofPieces_tolerant {pieces : List Piece} (hpieces : ∀ piece ∈ pieces, piece.Sound) (pos : Nat) :
    ∃ tokens, ofPieces .standard .tolerant pos pieces = .ok tokens := by
  induction pieces generalizing pos with
  | nil => exact ⟨[], rfl⟩
  | cons piece pieces ih =>
    have hall := List.forall_mem_cons.1 hpieces
    obtain ⟨t, ht, _⟩ := ofPiece_standard hall.1 pos
    obtain ⟨tokens, htokens⟩ := ih hall.2 (pos + piece.chars.length)
    exact ⟨t :: tokens, ofPieces_cons_ok.2 ⟨t, tokens, ht, htokens, rfl⟩⟩

end Token

/-! ### Tilings -/

/-- Tokens that cover a text from start to end. -/
structure Tiles (source : String) (tokens : List Token) : Prop where
  nonempty : ∀ t ∈ tokens, t.text ≠ ""
  first : ∀ {t}, tokens.head? = some t → t.pos = 0
  /-- Each token starts where the one before it stops. -/
  adjacent : ∀ {i t u}, tokens[i]? = some t → tokens[i + 1]? = some u → u.pos = t.stop
  /-- The offsets of a token cut its text out of the source. -/
  covered : ∀ t ∈ tokens, (source.toList.take t.stop).drop t.pos = t.text.toList
  joined : String.join (tokens.map Token.text) = source
  /-- At each place the first shape that matches decides what is cut off. -/
  chosen : ∃ pieces, Cuts source.toList pieces ∧ tokens.map (·.text.toList) = pieces.map Piece.chars

theorem tiles_of_row {source : String} {tokens : List Token}
    (h : Token.Row 0 (cut source.toList) tokens) : Tiles source tokens where
  nonempty t ht hempty := by
    have hchars : t.text.toList ∈ (cut source.toList).map Piece.chars :=
      h.texts ▸ List.mem_map.2 ⟨t, ht, rfl⟩
    obtain ⟨piece, hpiece, hsame⟩ := List.mem_map.1 hchars
    rw [hempty] at hsame
    exact chars_ne_nil_of_mem_cut hpiece hsame
  first ht := h.head ht
  adjacent ht hu := h.adjacent ht hu
  covered t ht := by
    have hcovered := h.covered List.length_nil ht
    rwa [List.nil_append, flatMap_chars_cut] at hcovered
  joined := by
    rw [← String.toList_inj, String.toList_join, List.flatMap_map, List.flatMap_def, h.texts,
      ← List.flatMap_def, flatMap_chars_cut]
  chosen := ⟨cut source.toList, cuts_iff.2 rfl, h.texts⟩

theorem tokenize_tiles {mode : Mode} {source : String} {tokens : List Token}
    (h : tokenize mode source = .ok tokens) : Tiles source tokens :=
  tiles_of_row (Token.row_of_ofPieces h)

theorem tokenize_tolerant (source : String) : ∃ tokens, tokenize .tolerant source = .ok tokens :=
  Token.ofPieces_tolerant (fun _ hpiece => sound_of_mem_cut hpiece) 0

/-- **Tokens lose nothing.**  Tolerant tokens exist for every text and tile it; so do strict tokens, where
there are any; and the coloured spans make up the text. -/
theorem tokenize_lossless (source : String) :
    (∃ tokens, tokenize .tolerant source = .ok tokens ∧ Tiles source tokens) ∧
      (∀ tokens, tokenize .strict source = .ok tokens → Tiles source tokens) ∧
      String.join ((highlight source).map Span.text) = source := by
  obtain ⟨tokens, htokens⟩ := tokenize_tolerant source
  refine ⟨⟨tokens, htokens, tokenize_tiles htokens⟩, fun tokens h => tokenize_tiles h, ?_⟩
  rw [highlight, htokens]
  show String.join ((tokens.map Span.ofToken).map Span.text) = source
  rw [List.map_map]
  exact (tokenize_tiles htokens).joined

/-- A text with a comment that nothing closes has strict tokens, and they tile it. -/
theorem tokenize_lossless_openComment :
    ∃ tokens, tokenize .strict "x=1/*" = .ok tokens ∧ Tiles "x=1/*" tokens := by
  have h : ∃ tokens, tokenize .strict "x=1/*" = .ok tokens := ⟨_, rfl⟩
  obtain ⟨tokens, htokens⟩ := h
  exact ⟨tokens, htokens, (tokenize_lossless _).2.1 tokens htokens⟩

end Klex
