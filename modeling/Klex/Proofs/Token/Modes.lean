import Klex.Proofs.Token.Tiling

/-!
# Strict and tolerant tokens

Tolerant mode makes a token of unknown kind of whatever strict mode fails at.  A stray character gives a
token of that kind in either mode, so the kind alone does not tell the two apart; the first character
does.

* **`Piece.Begins`**, **`begins_of_mem_cut`** — how pieces begin: what opens a string or a number is never
  a stray character.
* **`Token.isSpoilt`** — an unknown token that begins like a string or a number.
* **`Token.ofPiece_modes`**, **`Token.ofPieces_modes`** — strict mode fails at a piece exactly if its tolerant
  token is spoilt, hence on a row exactly at the first spoilt token.
* **`tokenize_modes`** — **the strict tokens of a text are its tolerant ones, or the first spoilt token is
  the failure.**
-/

namespace Klex

/-! ### How pieces begin -/

/-- The characters that a number begins with. -/
def Shape.opensNumber (c : Char) : Bool := c.isDigit || c == '.'

/-- What the first character of a piece says about its shape, and its shape about the character. -/
structure Piece.Begins (piece : Piece) : Prop where
  string : piece.shape = .openString → piece.chars.head?.any Shape.isDelimiter = true
  number : piece.shape = .number → piece.chars.head?.any Shape.opensNumber = true
  unknown : piece.shape = .unknown → piece.chars.head?.any Shape.isDelimiter = false ∧
    piece.chars.head?.any Shape.opensNumber = false

namespace Shape

theorem isDelimiter_of_opensNumber {c : Char} (h : opensNumber c = true) : isDelimiter c = false := by
  rw [isDelimiter, Bool.eq_false_iff]
  intro hc
  simp only [Bool.or_eq_true, beq_iff_eq] at hc
  rcases hc with (rfl | rfl) | rfl <;> exact absurd h (by decide)

/-- A character is stray only if no other shape fits. -/
theorem measure_of_first_unknown {cs : List Char} (hcs : cs ≠ []) (h : (first cs).1 = .unknown)
    {shape : Shape} (hshape : shape ≠ .unknown) : shape.measure cs = none := by
  have hmem : ∀ shape, shape ≠ .unknown → shape ∈ earlier .unknown := by
    intro shape
    cases shape <;> decide
  exact ((first_eq_iff hcs).1 (Prod.ext h rfl)).2 shape (hmem shape hshape)

theorem any_isDelimiter {c : Option Char} (h : c.any opensNumber = true) : c.any isDelimiter = false := by
  cases c with
  | none => rfl
  | some c => exact isDelimiter_of_opensNumber h

end Shape

theorem begins_of_mem_cut {cs : List Char} {piece : Piece} (h : piece ∈ cut cs) : piece.Begins := by
  obtain ⟨left, hleft, rfl⟩ := first_of_mem_cut h
  have hfits := Shape.measure_first hleft
  have hpos := Shape.first_pos left
  obtain ⟨c, rest, rfl⟩ := List.exists_cons_of_ne_nil hleft
  have hhead : ((c :: rest).take (Shape.first (c :: rest)).2).head? = some c := by
    rw [List.head?_take, if_neg (Nat.pos_iff_ne_zero.1 hpos)]
    rfl
  refine ⟨fun hshape => ?_, fun hshape => ?_, fun hshape => ?_⟩
  all_goals simp only [hhead, Option.any_some]
  · simp only at hshape
    rw [hshape, Shape.measure, Shape.openString?] at hfits
    split at hfits
    · assumption
    · cases hfits
  · simp only at hshape
    rw [hshape, Shape.measure, Shape.number?] at hfits
    split at hfits
    · next hc => simpa [Shape.opensNumber] using hc
    · cases hfits
  · have hstring : Shape.openString.measure (c :: rest) = none :=
      Shape.measure_of_first_unknown hleft hshape (by decide)
    have hnumber : Shape.number.measure (c :: rest) = none :=
      Shape.measure_of_first_unknown hleft hshape (by decide)
    constructor
    · simpa [Shape.measure, Shape.openString?] using hstring
    · simpa [Shape.measure, Shape.number?, Shape.opensNumber] using hnumber

/-! ### Spoilt tokens -/

namespace Token

/-- Whether a token begins like a string. -/
def opensString (t : Token) : Bool := t.text.toList.head?.any Shape.isDelimiter

/-- Whether a token is of unknown kind and begins like a string or a number. -/
def isSpoilt (t : Token) : Bool :=
  t.kind == .unknown && (t.opensString || t.text.toList.head?.any Shape.opensNumber)

/-- What is wrong with a spoilt token. -/
def complaint (t : Token) : Cause :=
  if t.opensString then .unterminatedString t.stop else .unreadableNumber t.text t.stop

/-- What strict mode makes of the text of tolerant tokens. -/
def verdict (tokens : List Token) : Except Stop (List Token) :=
  match tokens.find? isSpoilt with
  | none => .ok tokens
  | some t => .error (.failure ⟨t.complaint, some t.pos⟩)

/-- The flaw of a piece shows in its tolerant token. -/
theorem flaw?_eq {piece : Piece} (hbegins : piece.Begins) {t : Token}
    (htext : t.text = String.ofList piece.chars)
    (hkind : t.kind = .unknown ↔ piece.shape = .unknown ∨ (piece.flaw? t.pos).isSome = true) :
    piece.flaw? t.pos = if t.isSpoilt then some t.complaint else none := by
  have hstop : t.pos + piece.chars.length = t.stop := by rw [stop, htext, String.length_ofList]
  have hchars : t.text.toList = piece.chars := by rw [htext, String.toList_ofList]
  cases hflaw : piece.flaw? t.pos with
  | none =>
    rw [if_neg]
    rw [hflaw] at hkind
    intro hspoilt
    simp only [isSpoilt, opensString, Bool.and_eq_true, Bool.or_eq_true, beq_iff_eq, hchars] at hspoilt
    have hunknown : piece.shape = .unknown := by simpa using hkind.1 hspoilt.1
    simp [hbegins.unknown hunknown] at hspoilt
  | some cause =>
    rw [hflaw] at hkind
    have hunknown : t.kind = .unknown := hkind.2 (.inr rfl)
    rw [Piece.flaw?] at hflaw
    split at hflaw
    · next hshape =>
      have hopens : t.opensString = true := by rw [opensString, hchars, hbegins.string hshape]
      rw [isSpoilt, complaint, hopens, hunknown, ← hstop]
      exact hflaw.symm
    · next hshape =>
      have hnumber := hbegins.number hshape
      have hopens : t.opensString = false := by
        rw [opensString, hchars]
        exact Shape.any_isDelimiter hnumber
      split at hflaw
      · cases hflaw
      · rw [isSpoilt, complaint, hopens, hunknown, hchars, hnumber, ← hstop, htext]
        exact hflaw.symm
    · cases hflaw

/-- **Strict mode fails at a piece exactly if its tolerant token is spoilt.** -/
theorem ofPiece_modes {piece : Piece} (hsound : piece.Sound) (hbegins : piece.Begins) (pos : Nat) :
    ∃ t, ofPiece .standard .tolerant piece pos = .ok t ∧
      ofPiece .standard .strict piece pos = t.strictly (if t.isSpoilt then some t.complaint else none) := by
  obtain ⟨t, htolerant, hstrict, hkind⟩ := ofPiece_standard hsound pos
  obtain ⟨rfl, htext⟩ := ofPiece_place htolerant
  refine ⟨t, htolerant, ?_⟩
  rw [hstrict, flaw?_eq hbegins htext hkind]

/-- **Strict mode fails on a row of pieces exactly at the first spoilt token.** -/
theorem ofPieces_modes {pieces : List Piece} (hpieces : ∀ piece ∈ pieces, piece.Sound ∧ piece.Begins)
    (pos : Nat) :
    ∃ tokens, ofPieces .standard .tolerant pos pieces = .ok tokens ∧
      ofPieces .standard .strict pos pieces = verdict tokens := by
  induction pieces generalizing pos with
  | nil => exact ⟨[], rfl, rfl⟩
  | cons piece pieces ih =>
    obtain ⟨⟨hsound, hbegins⟩, hothers⟩ := List.forall_mem_cons.1 hpieces
    obtain ⟨t, htolerant, hstrict⟩ := ofPiece_modes hsound hbegins pos
    obtain ⟨tokens, hmore, hverdict⟩ := ih hothers (pos + piece.chars.length)
    refine ⟨t :: tokens, ofPieces_cons_ok.2 ⟨t, tokens, htolerant, hmore, rfl⟩, ?_⟩
    rw [ofPieces, hstrict, verdict, List.find?_cons]
    cases hspoilt : t.isSpoilt with
    | true => rfl
    | false =>
      -- the token stays, and the rest of the row decides
      simp only [Bool.false_eq_true, if_false, strictly, bind, Except.bind, hverdict, verdict]
      cases tokens.find? isSpoilt <;> rfl

end Token

theorem tokenize_verdict (source : String) :
    ∃ tokens, tokenize .tolerant source = .ok tokens ∧
      tokenize .strict source = Token.verdict tokens :=
  Token.ofPieces_modes (fun _ hpiece => ⟨sound_of_mem_cut hpiece, begins_of_mem_cut hpiece⟩) 0

/-- A text without strict tokens fails at a spoilt token. -/
theorem tokenize_strict_error {source : String} {stop : Stop} (h : tokenize .strict source = .error stop) :
    ∃ tokens, tokenize .tolerant source = .ok tokens ∧
      ∃ t ∈ tokens, stop = .failure ⟨t.complaint, some t.pos⟩ := by
  obtain ⟨tokens, htolerant, hstrict⟩ := tokenize_verdict source
  rw [hstrict, Token.verdict] at h
  cases hfind : tokens.find? Token.isSpoilt with
  | none =>
    rw [hfind] at h
    cases h
  | some t =>
    rw [hfind] at h
    cases h
    exact ⟨tokens, htolerant, t, List.mem_of_find?_eq_some hfind, rfl⟩

/-- **Strict tokens are the tolerant ones, unless there is a spoilt token; then the first of them is the
failure.** -/
theorem tokenize_modes (source : String) :
    ∃ tokens, tokenize .tolerant source = .ok tokens ∧
      ((tokens.find? Token.isSpoilt = none ∧ tokenize .strict source = .ok tokens) ∨
        ∃ t cause, tokens.find? Token.isSpoilt = some t ∧
          tokenize .strict source = .error (.failure ⟨cause, some t.pos⟩) ∧
          cause.label = "LexFailure" ∧ cause.stop? = some t.stop ∧
          cause.message = if t.opensString then "Unterminated string literal"
            else "Unparsable number '" ++ t.text ++ "'") := by
  obtain ⟨tokens, htolerant, hstrict⟩ := tokenize_verdict source
  refine ⟨tokens, htolerant, ?_⟩
  rw [hstrict, Token.verdict]
  cases hfind : tokens.find? Token.isSpoilt with
  | none => exact .inl ⟨rfl, rfl⟩
  | some t =>
    refine .inr ⟨t, t.complaint, rfl, rfl, ?_⟩
    rw [Token.complaint]
    split <;> exact ⟨rfl, rfl, rfl⟩

end Klex
