import Klex.Proofs.Token.Delimiter

/-!
# Words and identifiers

Truth values and null are tried before identifiers and need nothing behind them, so a word that begins
like one of them is never an identifier.

* **`Token.Word`** — a letter and then letters and digits.
* **`Token.OpensLiteral`** — a text begins with `true`, `false` or `null`.
* **`tokenize_word`** — **any other word is one identifier.**
* **`not_opensLiteral_of_identifier`** — **no identifier of any text begins like a literal.**
-/

namespace Klex

namespace Token

/-- A letter, then letters and digits. -/
structure Word (text : String) : Prop where
  chars : ∀ c ∈ text.toList, c.isAlphanum = true
  begins : text.toList.head?.any Char.isAlpha = true

/-- The text begins like a truth value or like null. -/
def OpensLiteral (text : String) : Prop :=
  ∃ word ∈ ["true", "false", "null"], word.toList <+: text.toList

instance (text : String) : Decidable (OpensLiteral text) :=
  inferInstanceAs (Decidable (∃ word ∈ ["true", "false", "null"], word.toList <+: text.toList))

end Token

namespace Shape

/-- A literal fits exactly where its word does. -/
theorem measure_literal {cs : List Char} :
    (boolean.measure cs = none ∧ null.measure cs = none) ↔
      ∀ word ∈ ["true", "false", "null"], ¬ word.toList <+: cs := by
  have hword (word : String) : word? word cs = none ↔ ¬ word.toList <+: cs := by
    rw [word?, ite_eq_right_iff, ← List.isPrefixOf_iff_prefix]
    simp
  rw [measure, measure, Option.or_eq_none_iff, hword, hword, hword]
  simp [and_assoc]

/-- Neither layout nor a comment begins with a letter. -/
theorem measure_letter {c : Char} (hc : c.isAlpha = true) (cs : List Char) :
    ∀ shape ∈ [whitespace, comment, openComment], shape.measure (c :: cs) = none := by
  have hspace : isSpace c = false := by
    rw [isSpace, Bool.or_eq_false_iff, Bool.or_eq_false_iff, Bool.or_eq_false_iff]
    refine ⟨⟨⟨?_, ?_⟩, ?_⟩, ?_⟩ <;> rw [beq_eq_false_iff_ne] <;> rintro rfl <;> exact absurd hc (by decide)
  have hslash : c ≠ '/' := by
    rintro rfl
    exact absurd hc (by decide)
  simp [measure, run?, hspace, comment?, openComment?, hslash]

/-- **A word that does not begin like a literal is taken whole.** -/
theorem first_word {text : String} (h : Token.Word text) (hfree : ¬ Token.OpensLiteral text) :
    first text.toList = (.identifier, text.toList.length) := by
  have hbegins := h.begins
  have hchars := h.chars
  have hliteral : boolean.measure text.toList = none ∧ null.measure text.toList = none :=
    measure_literal.2 fun word hword hopens => hfree ⟨word, hword, hopens⟩
  cases hcs : text.toList with
  | nil => simp [hcs] at hbegins
  | cons c cs =>
    rw [hcs] at hbegins hchars hliteral
    have hc : c.isAlpha = true := hbegins
    refine (first_eq_iff (List.cons_ne_nil c cs)).2 ⟨?_, ?_⟩
    · have hall : cs.takeWhile Char.isAlphanum = cs :=
        List.takeWhile_eq_self_iff.2 (List.forall_mem_cons.1 hchars).2
      rw [measure, identifier?, if_pos hc, hall, List.length_cons, Nat.add_comm]
    · have hearlier : earlier .identifier = [whitespace, comment, openComment] ++ [boolean, null] := rfl
      rw [hearlier]
      refine List.forall_mem_append.2 ⟨measure_letter hc cs, ?_⟩
      simp [hliteral]

end Shape

/-- **A word is one identifier**, unless it begins like a literal. -/
theorem tokenize_word {text : String} (h : Token.Word text) (hfree : ¬ Token.OpensLiteral text) :
    ∃ color, tokenize .strict text
      = .ok [⟨.identifier, text, 0, .text text, color, true, fun _ => rfl⟩] := by
  have hne : text.toList ≠ [] := by
    intro hnil
    have hbegins := h.begins
    simp [hnil] at hbegins
  have hfirst : Shape.first (text.toList ++ []) = (.identifier, text.toList.length) := by
    rw [List.append_nil]
    exact Shape.first_word h hfree
  have hcut := cut_of_first hne hfirst
  rw [List.append_nil] at hcut
  obtain ⟨color, hmake⟩ := Token.make_standard .identifier text 0 (.text text) fun _ => rfl
  have hpiece : Token.ofPiece .standard .strict ⟨.identifier, text.toList⟩ 0
      = .ok ⟨.identifier, text, 0, .text text, color, true, fun _ => rfl⟩ := by
    rw [Token.ofPiece, String.ofList_toList]
    exact hmake
  refine ⟨color, ?_⟩
  rw [tokenize, tokenizeWith, hcut]
  exact Token.ofPieces_cons_ok.2 ⟨_, [], hpiece, rfl, rfl⟩

namespace Token

theorem kindOf_ne_identifier {text : String} {kind : Kind} (h : text ∈ Shape.symbols)
    (hkind : Lexicon.standard.kindOf text = .ok kind) : kind ≠ .identifier := by
  have hall : ∀ text ∈ Shape.symbols, ∀ kind ∈ (Lexicon.standard.kindOf text).toOption,
      kind ≠ .identifier := by decide
  exact hall text h kind (by rw [hkind]; rfl)

/-- Only a piece in the shape of an identifier becomes one. -/
theorem shape_of_identifier {mode : Mode} {piece : Piece} (hpiece : piece.Sound) {pos : Nat} {t : Token}
    (h : ofPiece .standard mode piece pos = .ok t) (ht : t.kind = .identifier) :
    piece.shape = .identifier := by
  have hother {kind : Kind} {value : Literal} {named : kind.isNamed = true → value.isText = true}
      (hmake : make .standard kind (String.ofList piece.chars) pos value named = .ok t) :
      kind = .identifier := (make_kind hmake).symm.trans ht
  rw [ofPiece] at h
  cases hshape : piece.shape with
  | identifier => rfl
  | openComment =>
    obtain ⟨color, hmake⟩ := make_standard .comment (String.ofList piece.chars) pos .null (Kind.unnamed rfl)
    simp only [hshape, hmake] at h
    cases h
    cases ht
  | openString =>
    simp only [hshape] at h
    cases hother (reject_made h)
  | number =>
    simp only [hshape] at h
    split at h
    · cases hother h
    · cases hother (reject_made h)
  | symbol =>
    obtain ⟨kind, hkind, -⟩ := kindOf_standard (hpiece hshape)
    simp only [hshape, hkind] at h
    exact absurd (hother h) (kindOf_ne_identifier (hpiece hshape) hkind)
  | _ =>
    simp only [hshape] at h
    cases hother h

end Token

/-- **No identifier begins like a literal**, in whatever text it stands. -/
theorem not_opensLiteral_of_identifier {mode : Mode} {source : String} {tokens : List Token}
    (h : tokenize mode source = .ok tokens) {t : Token} (ht : t ∈ tokens) (hkind : t.kind = .identifier) :
    ¬ Token.OpensLiteral t.text := by
  obtain ⟨piece, hpiece, hmade⟩ := Token.ofPiece_of_mem h ht
  have hshape := Token.shape_of_identifier (sound_of_mem_cut hpiece) hmade hkind
  obtain ⟨left, hleft, rfl⟩ := first_of_mem_cut hpiece
  have hearlier := ((Shape.first_eq_iff hleft).1 (Prod.ext hshape rfl)).2
  have hfree := Shape.measure_literal.1
    ⟨hearlier .boolean (by decide), hearlier .null (by decide)⟩
  rintro ⟨word, hword, hopens⟩
  rw [(Token.ofPiece_place hmade).2, String.toList_ofList] at hopens
  exact hfree word hword (hopens.trans (List.take_prefix _ left))

end Klex
