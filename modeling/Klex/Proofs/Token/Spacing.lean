import Klex.Proofs.Grammar.Respacing
import Klex.Proofs.Token.Numeral

/-!
# Tokens that are spaced apart

What a piece of text is may depend on what follows it, and what follows changes if pieces are set apart by
spaces.

* **`Apart`** — nothing follows, or a space does.
* **`Shape.measure_none_apart`**, **`Shape.measure_apart`** — **a shape that does not fit still does not, and
  a shape that fits still does, if what follows is set apart.**  The latter holds of the shapes in
  `Shape.settled`.
* **`Shape.measure_le`** — no shape takes more than there is.
* **`keptPieces_cut_space`** — one step: a space behind a piece makes no difference to the pieces that do not
  only separate others.
* **`keptPieces_spacedOut`** — **pieces that are spaced apart are cut off again**, by induction on the row.
* **`tokenize_spaced`** — **the same of tokens.**

Three sorts of pieces are not settled.  Spaces join those that follow.  A comment to the end of a line takes
the space along; the line end behind it stays where it is.  What is never closed has nothing behind it.
-/

namespace Klex

/-! ### Texts that are set apart -/

/-- Nothing, or a space and anything. -/
def Apart (tail : List Char) : Prop := ∀ c ∈ tail.head?, c = ' '

theorem apart_nil : Apart [] := fun _ hc => by cases hc

theorem apart_space (more : List Char) : Apart (' ' :: more) := fun _ hc => (Option.some.inj hc).symm

theorem Apart.any_head {tail : List Char} (h : Apart tail) {p : Char → Bool} (hp : p ' ' = false) :
    tail.head?.any p = false := by
  cases tail with
  | nil => rfl
  | cons c cs =>
    rw [List.head?_cons, Option.any_some, h c rfl]
    exact hp

namespace Shape

section

variable {chars rest tail : List Char}

/-! ### Shapes that do not fit -/

/-- **A word without a space that does not fit does not fit if what follows is set apart.** -/
theorem word?_none_apart {word : String} (hword : ' ' ∉ word.toList) (htail : Apart tail)
    (h : word? word (chars ++ rest) = none) : word? word (chars ++ tail) = none := by
  rw [word?, ite_eq_right_iff] at h ⊢
  intro hfits
  have hprefix : word.toList <+: chars ++ tail := List.isPrefixOf_iff_prefix.1 hfits
  have hfree : ¬ word.toList <+: chars ++ rest := fun hrest => by
    cases h (List.isPrefixOf_iff_prefix.2 hrest)
  rcases List.prefix_or_prefix_of_prefix hprefix (List.prefix_append chars tail) with hle | hle
  · exact absurd (hle.trans (List.prefix_append chars rest)) hfree
  · -- the word would go on into the tail, so there would be a space in it
    obtain ⟨more, hmore⟩ := hle
    rw [← hmore, List.prefix_append_right_inj] at hprefix
    cases more with
    | nil =>
      rw [List.append_nil] at hmore
      exact absurd (hmore ▸ List.prefix_append chars rest) hfree
    | cons c more =>
      obtain ⟨after, rfl⟩ := hprefix
      rw [← hmore, htail c rfl] at hword
      exact absurd (List.mem_append_right chars List.mem_cons_self) hword

theorem findSome?_word_none_apart {words : List String} (hwords : ∀ word ∈ words, ' ' ∉ word.toList)
    (htail : Apart tail) (h : words.findSome? (word? · (chars ++ rest)) = none) :
    words.findSome? (word? · (chars ++ tail)) = none := by
  rw [List.findSome?_eq_none_iff] at h ⊢
  exact fun word hword => word?_none_apart (hwords word hword) htail (h word hword)

theorem openComment?_eq_none_iff {cs : List Char} : openComment? cs = none ↔ word? "/*" cs = none := by
  fun_cases openComment? cs with
  | case1 rest => exact iff_of_false (by simp) (by simp [word?])
  | case2 _ hblock => exact iff_of_true rfl (word?_eq_none hblock)

/-- Where no block comment opens, a comment is one to the end of the line. -/
theorem comment?_eq_none_iff {cs : List Char} (h : word? "/*" cs = none) :
    comment? cs = none ↔ word? "//" cs = none := by
  fun_cases comment? cs with
  | case1 rest => exact iff_of_false (by simp) (by simp [word?])
  | case2 rest => exact absurd h (by simp [word?])
  | case3 _ hline hblock => exact iff_of_true rfl (word?_eq_none hline)

/-- The shapes that fit or not by the first character alone. -/
def headed : List Shape := [whitespace, identifier, openString, number]

theorem measure_headed {shape : Shape} (hshape : shape ∈ headed) {c : Char} {cs cs' : List Char}
    (h : shape.measure (c :: cs) = none) : shape.measure (c :: cs') = none := by
  revert h
  revert shape
  simp only [headed, List.forall_mem_cons]
  refine ⟨fun h => ?_, fun h => ?_, fun h => ?_, fun h => ?_, by simp⟩
  · by_cases hc : isSpace c = true
    · simp [measure, run?, List.takeWhile_cons_of_pos hc] at h
    · simp [measure, run?, List.takeWhile_cons_of_neg hc]
  · simpa [measure, identifier?] using h
  · simpa [measure, openString?] using h
  · simpa [measure, number?] using h

/-- Where a string does not open, there is none with an end either. -/
theorem string?_none {cs : List Char} (h : openString? cs = none) : string? cs = none := by
  fun_cases openString? cs with
  | case1 d cs hd => rw [openString?, if_pos hd] at h; cases h
  | case2 d cs hd => rw [string?, if_neg hd]
  | case3 => rfl

/-- **A shape that does not fit does not fit if what follows is set apart.**  Comments and strings may get
their ends from what follows, so it takes that there is none without an end either. -/
theorem measure_none_apart (hchars : chars ≠ []) (htail : Apart tail) {shape : Shape}
    (hcomment : shape = .comment → openComment.measure (chars ++ rest) = none)
    (hstring : shape = .string → openString.measure (chars ++ rest) = none)
    (h : shape.measure (chars ++ rest) = none) : shape.measure (chars ++ tail) = none := by
  have hhead : ∀ shape ∈ headed, shape.measure (chars ++ rest) = none →
      shape.measure (chars ++ tail) = none := by
    obtain ⟨c, cs, rfl⟩ := List.exists_cons_of_ne_nil hchars
    exact fun shape hshape hnone => measure_headed hshape hnone
  cases shape with
  | comment =>
    have hopen := openComment?_eq_none_iff.1 (hcomment rfl)
    have hline := (comment?_eq_none_iff hopen).1 h
    have hopen' := word?_none_apart (by decide) htail hopen
    exact (comment?_eq_none_iff hopen').2 (word?_none_apart (by decide) htail hline)
  | openComment =>
    exact openComment?_eq_none_iff.2 (word?_none_apart (by decide) htail (openComment?_eq_none_iff.1 h))
  | boolean =>
    obtain ⟨htrue, hfalse⟩ := Option.or_eq_none_iff.1 h
    exact Option.or_eq_none_iff.2
      ⟨word?_none_apart (by decide) htail htrue, word?_none_apart (by decide) htail hfalse⟩
  | null => exact word?_none_apart (by decide) htail h
  | string => exact string?_none (hhead .openString (by decide) (hstring rfl))
  | symbol => exact findSome?_word_none_apart (by decide) htail h
  | unknown =>
    obtain ⟨c, cs, rfl⟩ := List.exists_cons_of_ne_nil hchars
    cases h
  | whitespace => exact hhead .whitespace (by decide) h
  | identifier => exact hhead .identifier (by decide) h
  | openString => exact hhead .openString (by decide) h
  | number => exact hhead .number (by decide) h

/-! ### Shapes that fit -/

/-- A word that is all of a piece fits whatever follows. -/
theorem word?_append {word : String} (h : word? word (chars ++ rest) = some chars.length) (tail : List Char) :
    word? word (chars ++ tail) = some chars.length := by
  rw [word?, Option.ite_none_right_eq_some] at h ⊢
  obtain ⟨hfits, hlength⟩ := h
  have hchars : word.toList = chars := by
    have htake := List.prefix_iff_eq_take.1 (List.isPrefixOf_iff_prefix.1 hfits)
    have hsize : word.toList.length = chars.length := by
      rw [String.length_toList]
      exact Option.some.inj hlength
    rwa [hsize, List.take_left] at htake
  rw [← hchars]
  exact ⟨List.isPrefixOf_iff_prefix.2 (List.prefix_append _ _), congrArg some String.length_toList.symm⟩

theorem findSome?_word_apart {words : List String} (hwords : ∀ word ∈ words, ' ' ∉ word.toList)
    (htail : Apart tail) (h : words.findSome? (word? · (chars ++ rest)) = some chars.length) :
    words.findSome? (word? · (chars ++ tail)) = some chars.length := by
  rw [List.findSome?_eq_some_iff] at h ⊢
  obtain ⟨before, word, after, rfl, hfits, hnone⟩ := h
  refine ⟨before, word, after, rfl, word?_append hfits tail, fun other hother => ?_⟩
  exact word?_none_apart (hwords other (List.mem_append_left _ hother)) htail (hnone other hother)

/-- **A string that ends does so whatever follows.** -/
theorem stringEnd?_append {d : Char} (hd : d ≠ '\\')
    (h : stringEnd? d (chars ++ rest) = some chars.length) (tail : List Char) :
    stringEnd? d (chars ++ tail) = some chars.length := by
  obtain ⟨n, hn⟩ := Nat.exists_eq_add_one_of_ne_zero (Nat.pos_iff_ne_zero.1 (stringEnd?_pos h))
  have hends : ∀ m ≤ n, ∀ tail, EndsAt d (chars ++ tail) m ↔ EndsAt d chars m := by
    intro m hm tail
    rw [EndsAt, EndsAt, List.getElem?_append_left (by omega), List.take_append_of_le_length (by omega)]
  rw [hn, stringEnd?_eq_some_iff hd] at h ⊢
  refine ⟨(hends n (Nat.le_refl n) tail).2 ((hends n (Nat.le_refl n) rest).1 h.1), fun m hm => ?_⟩
  rcases Nat.lt_or_ge m n with hlt | hge
  · exact h.2 ((hends m hlt.le rest).2 ((hends m hlt.le tail).1 hm))
  · exact hge

/-- Where there is a number it is the longest numeral. -/
theorem number?_eq_some {c : Char} {cs : List Char} {n : Nat} (h : number? (c :: cs) = some n) :
    opensNumber c = true ∧ (Numeral.startOf (c :: cs)).chars.length = n := by
  have hc : opensNumber c = true := by
    simp only [number?, Option.ite_none_right_eq_some] at h
    simpa [opensNumber] using h.1
  rw [Numeral.number?_eq hc] at h
  exact ⟨hc, Option.some.inj h⟩

/-- The shapes of the pieces that end where they do whatever follows, as long as it is set apart. -/
def settled : List Shape := [boolean, null, identifier, string, number, symbol, unknown]

/-- **A piece of a settled shape still fits if what follows is set apart.** -/
theorem measure_apart (htail : Apart tail) {shape : Shape} (hshape : shape ∈ settled)
    (h : shape.measure (chars ++ rest) = some chars.length) :
    shape.measure (chars ++ tail) = some chars.length := by
  have hne : chars ≠ [] := by
    rintro rfl
    exact absurd (measure_pos h) (Nat.lt_irrefl 0)
  obtain ⟨c, cs, rfl⟩ := List.exists_cons_of_ne_nil hne
  cases shape with
  | boolean =>
    have hwords : ∀ cs, boolean.measure cs = ["true", "false"].findSome? (word? · cs) := by
      intro cs
      rw [measure]
      cases hword : word? "true" cs <;> cases hword' : word? "false" cs <;> simp [hword, hword']
    rw [hwords] at h ⊢
    exact findSome?_word_apart (by decide) htail h
  | null => exact word?_append h tail
  | identifier =>
    simp only [measure, List.cons_append, identifier?, Option.ite_none_right_eq_some] at h ⊢
    obtain ⟨hc, hlength⟩ := h
    have hrun : ((cs ++ rest).takeWhile Char.isAlphanum).length = cs.length := by
      simpa [Nat.add_comm] using hlength
    rw [takeWhile_run (run_of_length hrun).1 (htail.any_head rfl), List.length_cons, Nat.add_comm]
    exact ⟨hc, rfl⟩
  | string =>
    simp only [measure, List.cons_append, string?, Option.ite_none_right_eq_some,
      Option.map_eq_some_iff] at h ⊢
    obtain ⟨hc, n, hn, hlength⟩ := h
    obtain rfl : n = cs.length := by simpa [Nat.add_comm] using hlength
    have hslash : c ≠ '\\' := by
      rintro rfl
      exact absurd hc (by decide)
    exact ⟨hc, cs.length, stringEnd?_append hslash hn tail, hlength⟩
  | number =>
    obtain ⟨hc, hlength⟩ := number?_eq_some h
    rw [List.append_eq, ← List.cons_append] at hlength
    have hchars : (Numeral.startOf (c :: cs ++ rest)).chars = c :: cs := by
      have hprefix := Numeral.startOf_isPrefix (c :: cs ++ rest)
      rw [List.prefix_iff_eq_take.1 hprefix, hlength, List.take_left]
    have hsame := (Numeral.startOf (c :: cs ++ rest)).chars_startOf (htail.any_head (p := Numeral.admits) rfl)
    rw [hchars] at hsame
    rw [List.cons_append, measure, Numeral.number?_eq hc, ← List.cons_append, hsame]
  | symbol => exact findSome?_word_apart (by decide) htail h
  | unknown => exact h
  | _ => simp [settled] at hshape

/-- **A piece of a settled shape is still cut off if what follows is set apart.** -/
theorem first_apart (htail : Apart tail) {shape : Shape} (hshape : shape ∈ settled)
    (hchars : chars ≠ []) (h : first (chars ++ rest) = (shape, chars.length)) :
    first (chars ++ tail) = (shape, chars.length) := by
  have hne : ∀ tail, chars ++ tail ≠ [] := fun tail => List.append_ne_nil_of_left_ne_nil hchars tail
  obtain ⟨hfits, hearlier⟩ := (first_eq_iff (hne rest)).1 h
  have hcomment : ∀ shape ∈ settled, openComment ∈ earlier shape := by decide
  have hstring : ∀ shape ∈ settled, .string ∈ earlier shape → openString ∈ earlier shape := by decide
  refine (first_eq_iff (hne tail)).2 ⟨measure_apart htail hshape hfits, fun other hother => ?_⟩
  refine measure_none_apart hchars htail (fun _ => ?_) (fun heq => ?_) (hearlier other hother)
  · exact hearlier .openComment (hcomment shape hshape)
  · exact hearlier .openString (hstring shape hshape (heq ▸ hother))

/-! ### Comments -/

theorem two_le_commentEnd? {cs : List Char} {n : Nat} (h : commentEnd? cs = some n) : 2 ≤ n := by
  fun_induction commentEnd? cs generalizing n with
  | case1 => cases h
  | case2 rest =>
    cases h
    exact Nat.le_refl 2
  | case3 c cs _ ih =>
    obtain ⟨m, hm, rfl⟩ := Option.map_eq_some_iff.1 h
    exact Nat.le_succ_of_le (ih hm)

/-- A block comment that ends does so whatever follows. -/
theorem commentEnd?_append (h : commentEnd? (chars ++ rest) = some chars.length) (tail : List Char) :
    commentEnd? (chars ++ tail) = some chars.length := by
  induction chars with
  | nil => exact absurd (two_le_commentEnd? h) (by decide)
  | cons c cs ih =>
    cases cs with
    | nil => exact absurd (two_le_commentEnd? h) (Nat.lt_irrefl 1)
    | cons c' cs =>
      by_cases hend : c = '*' ∧ c' = '/'
      · obtain ⟨rfl, rfl⟩ := hend
        exact h
      · have hgo : ∀ tail, commentEnd? (c :: c' :: cs ++ tail)
            = (commentEnd? (c' :: cs ++ tail)).map (· + 1) := by
          intro tail
          rw [List.cons_append, List.cons_append, commentEnd?, ← List.cons_append]
          rintro more rfl hcons
          exact hend ⟨rfl, (List.cons.inj hcons).1⟩
        rw [hgo, Option.map_eq_some_iff] at h ⊢
        obtain ⟨n, hn, hlength⟩ := h
        obtain rfl : n = (c' :: cs).length := Nat.succ.inj hlength
        exact ⟨_, ih hn, hlength⟩

theorem commentEnd?_le {cs : List Char} {n : Nat} (h : commentEnd? cs = some n) : n ≤ cs.length := by
  fun_induction commentEnd? cs generalizing n with
  | case1 => cases h
  | case2 rest =>
    cases h
    exact Nat.le_add_left 2 rest.length
  | case3 c cs _ ih =>
    obtain ⟨m, hm, rfl⟩ := Option.map_eq_some_iff.1 h
    exact Nat.succ_le_succ (ih hm)

/-- A comment goes to the end of the line, or to its own end. -/
theorem comment?_cases {cs : List Char} {n : Nat} (h : comment? cs = some n) :
    (∃ body, cs = '/' :: '/' :: body ∧ n = 2 + (body.takeWhile (· != '\n')).length) ∨
      ∃ body m, cs = '/' :: '*' :: body ∧ commentEnd? body = some m ∧ n = 2 + m := by
  revert h
  fun_cases comment? cs with
  | case1 body => exact fun h => .inl ⟨body, rfl, (Option.some.inj h).symm⟩
  | case2 body =>
    intro h
    obtain ⟨m, hm, rfl⟩ := Option.map_eq_some_iff.1 h
    exact .inr ⟨body, m, rfl, hm, rfl⟩
  | case3 =>
    intro h
    cases h

/-- What is long enough begins with the first two characters of the whole. -/
theorem cons_cons_of_append {a b : Char} {body : List Char} (h : chars ++ rest = a :: b :: body)
    (hchars : 2 ≤ chars.length) : ∃ cs, chars = a :: b :: cs ∧ body = cs ++ rest := by
  match chars, hchars with
  | x :: y :: cs, _ =>
    cases h
    exact ⟨cs, rfl, rfl⟩

theorem first_comment {n : Nat} (h : comment? ('/' :: chars) = some n) :
    first ('/' :: chars) = (.comment, n) :=
  (first_eq_iff (List.cons_ne_nil '/' chars)).2 ⟨h, List.forall_mem_singleton.2 rfl⟩

end

/-! ### Pieces within the text -/

theorem word?_le {word : String} {cs : List Char} {n : Nat} (h : word? word cs = some n) : n ≤ cs.length := by
  rw [word?, Option.ite_none_right_eq_some] at h
  obtain ⟨hfits, hlength⟩ := h
  rw [← Option.some.inj hlength, ← String.length_toList]
  exact (List.isPrefixOf_iff_prefix.1 hfits).length_le

theorem stringEnd?_le {d : Char} {cs : List Char} {n : Nat} (h : stringEnd? d cs = some n) :
    n ≤ cs.length := by
  fun_induction stringEnd? d cs generalizing n with
  | case1 => cases h
  | case4 =>
    cases h
    exact Nat.le_add_left 1 _
  | _ =>
    obtain ⟨m, hm, rfl⟩ := Option.map_eq_some_iff.1 h
    rename_i ih
    have hle := ih hm
    simp only [List.length_cons] at hle ⊢
    omega

/-- What is never closed goes on to the end. -/
theorem openComment?_eq_length {cs : List Char} {n : Nat} (h : openComment? cs = some n) : n = cs.length := by
  rw [openComment?.eq_def] at h
  split at h
  · rw [← Option.some.inj h]
    exact Nat.add_comm 2 _
  · cases h

theorem openString?_eq_length {cs : List Char} {n : Nat} (h : openString? cs = some n) : n = cs.length := by
  rw [openString?.eq_def] at h
  split at h
  · rw [← Option.some.inj (Option.ite_none_right_eq_some.1 h).2]
    exact Nat.add_comm 1 _
  · cases h

/-- **No shape takes more than there is.** -/
theorem measure_le {shape : Shape} {cs : List Char} {n : Nat} (h : shape.measure cs = some n) :
    n ≤ cs.length := by
  cases shape with
  | whitespace =>
    simp only [measure, run?] at h
    split at h
    · cases h
    · rw [← Option.some.inj h]
      exact (List.takeWhile_prefix _).length_le
  | comment =>
    rcases comment?_cases h with ⟨body, rfl, rfl⟩ | ⟨body, m, rfl, hm, rfl⟩
    · have hle := (List.takeWhile_prefix (l := body) (· != '\n')).length_le
      simp only [List.length_cons]
      omega
    · have hle := commentEnd?_le hm
      simp only [List.length_cons]
      omega
  | openComment => exact (openComment?_eq_length h).le
  | boolean =>
    rcases Option.or_eq_some_iff.1 h with h | ⟨-, h⟩ <;> exact word?_le h
  | null => exact word?_le h
  | identifier =>
    simp only [measure, identifier?] at h
    split at h
    · next c cs =>
      obtain ⟨-, hn⟩ := Option.ite_none_right_eq_some.1 h
      rw [← Option.some.inj hn, Nat.add_comm]
      exact Nat.succ_le_succ (List.takeWhile_prefix _).length_le
    · cases h
  | string =>
    simp only [measure, string?] at h
    split at h
    · next d cs =>
      obtain ⟨-, hn⟩ := Option.ite_none_right_eq_some.1 h
      obtain ⟨m, hm, rfl⟩ := Option.map_eq_some_iff.1 hn
      rw [Nat.add_comm]
      exact Nat.succ_le_succ (stringEnd?_le hm)
    · cases h
  | openString => exact (openString?_eq_length h).le
  | number =>
    cases cs with
    | nil => cases h
    | cons c cs =>
      rw [← (number?_eq_some h).2]
      exact (Numeral.startOf_isPrefix _).length_le
  | symbol =>
    obtain ⟨word, -, h⟩ := List.exists_of_findSome?_eq_some h
    exact word?_le h
  | unknown =>
    cases cs with
    | nil => cases h
    | cons c cs =>
      rw [← Option.some.inj h]
      exact Nat.le_add_left 1 cs.length

/-- Whether pieces of the shape only separate others. -/
def isTrivia : Shape → Bool
  | whitespace | comment | openComment => true
  | _ => false

theorem settled_or_openString {shape : Shape} (h : shape.isTrivia = false) :
    shape ∈ settled ∨ shape = openString := by
  revert h
  cases shape <;> decide

end Shape

/-! ### Rows of pieces -/

/-- The pieces that do not only separate others. -/
def keptPieces (pieces : List Piece) : List Piece := pieces.filter fun piece => !piece.shape.isTrivia

/-- The text of pieces with a space between any two. -/
def spacedOut (pieces : List Piece) : List Char := [' '].intercalate (pieces.map Piece.chars)

/-- A piece has the length that the first shape takes. -/
theorem length_take_first {cs : List Char} (hcs : cs ≠ []) :
    (cs.take (Shape.first cs).2).length = (Shape.first cs).2 :=
  List.length_take_of_le (Shape.measure_le (Shape.measure_first hcs))

theorem Cuts.first {shape : Shape} {chars rest : List Char} {pieces : List Piece}
    (h : Cuts (chars ++ rest) (⟨shape, chars⟩ :: pieces)) :
    chars ≠ [] ∧ Shape.first (chars ++ rest) = (shape, chars.length) := by
  obtain ⟨hne, hpiece⟩ := h.head
  obtain ⟨hshape, hchars⟩ := Piece.mk.inj hpiece
  have hlength : chars.length = (Shape.first (chars ++ rest)).2 :=
    (congrArg List.length hchars).trans (length_take_first hne)
  refine ⟨?_, Prod.ext hshape.symm hlength.symm⟩
  rintro rfl
  exact absurd (Shape.first_pos ([] ++ rest)) (by rw [← hlength]; exact Nat.lt_irrefl 0)

section

variable {shape : Shape} {chars rest more : List Char}

theorem keptPieces_cons (piece : Piece) {pieces others : List Piece}
    (h : keptPieces pieces = keptPieces others) :
    keptPieces (piece :: pieces) = keptPieces (piece :: others) := by
  rw [keptPieces, keptPieces, List.filter_cons, List.filter_cons]
  rw [keptPieces, keptPieces] at h
  rw [h]

theorem keptPieces_cons_trivia {piece : Piece} (h : piece.shape.isTrivia = true) (pieces : List Piece) :
    keptPieces (piece :: pieces) = keptPieces pieces :=
  List.filter_cons_of_neg (by simp [h])

/-- Spaces in front of a text do not count. -/
theorem keptPieces_cut_dropWhile (cs : List Char) :
    keptPieces (cut (cs.dropWhile Shape.isSpace)) = keptPieces (cut cs) := by
  have happend : cs.takeWhile Shape.isSpace ++ cs.dropWhile Shape.isSpace = cs :=
    List.takeWhile_append_dropWhile
  by_cases hspaces : cs.takeWhile Shape.isSpace = []
  · rw [hspaces, List.nil_append] at happend
    rw [happend]
  · have hne : cs ≠ [] := by
      rintro rfl
      exact hspaces rfl
    have hrun : Shape.run? Shape.isSpace cs = some (cs.takeWhile Shape.isSpace).length := by
      rw [Shape.run?]
      split
      · next hzero => exact absurd (List.length_eq_zero_iff.1 hzero) hspaces
      · rfl
    have hfirst : Shape.first cs = (.whitespace, (cs.takeWhile Shape.isSpace).length) :=
      (Shape.first_eq_iff hne).2 ⟨hrun, fun other hother => absurd hother List.not_mem_nil⟩
    have hcut : cut (cs.takeWhile Shape.isSpace ++ cs.dropWhile Shape.isSpace)
        = ⟨.whitespace, cs.takeWhile Shape.isSpace⟩ :: cut (cs.dropWhile Shape.isSpace) :=
      cut_of_first hspaces (by rw [happend, hfirst])
    rw [happend] at hcut
    rw [hcut, keptPieces_cons_trivia rfl]

theorem keptPieces_cut_cons_space (cs : List Char) : keptPieces (cut (' ' :: cs)) = keptPieces (cut cs) := by
  rw [← keptPieces_cut_dropWhile (' ' :: cs), ← keptPieces_cut_dropWhile cs]
  rfl

/-- A comment to the end of a line takes a space along, and stays a comment. -/
theorem keptPieces_cut_comment (hfits : Shape.comment? (chars ++ rest) = some chars.length)
    (hmore : more.head? = rest.head?) :
    keptPieces (cut (chars ++ ' ' :: more)) = keptPieces (cut more) := by
  rcases Shape.comment?_cases hfits with ⟨body, hbody, hlength⟩ | ⟨body, n, hbody, hend, hlength⟩
  · obtain ⟨cs, rfl, rfl⟩ := Shape.cons_cons_of_append hbody (by omega)
    have hrun : ((cs ++ rest).takeWhile (· != '\n')).length = cs.length := by
      simp only [List.length_cons] at hlength
      omega
    obtain ⟨hcs, hline⟩ := Shape.run_of_length hrun
    have htake : (cs ++ [' '] ++ more).takeWhile (· != '\n') = cs ++ [' '] := by
      refine Shape.takeWhile_run (fun c hc => ?_) (hmore ▸ hline)
      rcases List.mem_append.1 hc with hc | hc
      · exact hcs c hc
      · rw [List.mem_singleton.1 hc]
        rfl
    have hcomment : Shape.comment? ('/' :: '/' :: (cs ++ [' '] ++ more))
        = some ('/' :: '/' :: (cs ++ [' '])).length := by
      rw [Shape.comment?, htake, List.length_cons, List.length_cons, Nat.add_comm]
    have hcut : cut ('/' :: '/' :: (cs ++ [' ']) ++ more)
        = ⟨.comment, '/' :: '/' :: (cs ++ [' '])⟩ :: cut more :=
      cut_of_first (List.cons_ne_nil _ _) (Shape.first_comment hcomment)
    rw [show '/' :: '/' :: cs ++ ' ' :: more = '/' :: '/' :: (cs ++ [' ']) ++ more by simp, hcut]
    exact keptPieces_cons_trivia rfl _
  · obtain ⟨cs, rfl, rfl⟩ := Shape.cons_cons_of_append hbody (by omega)
    obtain rfl : n = cs.length := by
      simp only [List.length_cons] at hlength
      omega
    have hcomment : Shape.comment? ('/' :: '*' :: (cs ++ ' ' :: more)) = some ('/' :: '*' :: cs).length := by
      rw [Shape.comment?, Shape.commentEnd?_append hend, Option.map_some, hlength]
    have hcut : cut ('/' :: '*' :: cs ++ ' ' :: more) = ⟨.comment, '/' :: '*' :: cs⟩ :: cut (' ' :: more) :=
      cut_of_first (List.cons_ne_nil _ _) (Shape.first_comment hcomment)
    rw [hcut, keptPieces_cons_trivia rfl, keptPieces_cut_cons_space]

/-- **A space behind a piece makes no difference**, if something follows the piece and the same character
follows the space. -/
theorem keptPieces_cut_space (hchars : chars ≠ [])
    (hfirst : Shape.first (chars ++ rest) = (shape, chars.length)) (hrest : rest ≠ [])
    (hmore : more.head? = rest.head?) :
    keptPieces (cut (chars ++ ' ' :: more)) = keptPieces (⟨shape, chars⟩ :: cut more) := by
  have hne := List.append_ne_nil_of_left_ne_nil hchars rest
  have hfits : shape.measure (chars ++ rest) = some chars.length := ((Shape.first_eq_iff hne).1 hfirst).1
  have hpart : chars.length ≠ (chars ++ rest).length := by simp [hrest]
  by_cases hsettled : shape ∈ Shape.settled
  · rw [cut_of_first hchars (Shape.first_apart (apart_space more) hsettled hchars hfirst)]
    exact keptPieces_cons _ (keptPieces_cut_cons_space more)
  · cases shape with
    | whitespace =>
      have hrun : ((chars ++ rest).takeWhile Shape.isSpace).length = chars.length := by
        simp only [Shape.measure, Shape.run?] at hfits
        split at hfits
        · cases hfits
        · exact Option.some.inj hfits
      rw [← keptPieces_cut_dropWhile, List.dropWhile_append_of_pos (Shape.run_of_length hrun).1,
        keptPieces_cut_dropWhile, keptPieces_cut_cons_space]
      exact (keptPieces_cons_trivia rfl _).symm
    | comment => rw [keptPieces_cut_comment hfits hmore, keptPieces_cons_trivia rfl]
    | openComment => exact absurd (Shape.openComment?_eq_length hfits) hpart
    | openString => exact absurd (Shape.openString?_eq_length hfits) hpart
    | _ => exact absurd (by decide) hsettled

end

theorem head?_spacedOut {piece : Piece} (h : piece.chars ≠ []) (pieces : List Piece) :
    (spacedOut (piece :: pieces)).head? = piece.chars.head? := by
  rw [spacedOut, List.map_cons]
  cases pieces with
  | nil => rw [List.map_nil, List.intercalate_singleton]
  | cons other pieces =>
    rw [List.map_cons, List.intercalate_cons_cons, List.append_assoc, List.head?_append_of_ne_nil _ h]

/-- **Pieces that are spaced apart are cut off again, but for those that only separate others.** -/
theorem keptPieces_spacedOut {cs : List Char} {pieces : List Piece} (h : Cuts cs pieces) :
    keptPieces (cut (spacedOut pieces)) = keptPieces pieces := by
  induction h with
  | nil => rfl
  | @cons shape chars rest pieces hfirst hothers ih =>
    obtain ⟨hchars, hpiece⟩ := (Cuts.cons hfirst hothers).first
    cases hothers with
    | nil =>
      have hcut := cut_of_first hchars hpiece
      rw [List.append_nil] at hcut
      have hspaced : spacedOut [⟨shape, chars⟩] = chars := List.intercalate_singleton
      rw [hspaced, hcut]
      rfl
    | @cons shape' chars' rest' pieces' hfirst' hothers' =>
      obtain ⟨hchars', -⟩ := (Cuts.cons hfirst' hothers').first
      have hspaced : spacedOut (⟨shape, chars⟩ :: ⟨shape', chars'⟩ :: pieces')
          = chars ++ ' ' :: spacedOut (⟨shape', chars'⟩ :: pieces') :=
        List.intercalate_cons_cons.trans (List.append_assoc _ _ _)
      have hhead : (spacedOut (⟨shape', chars'⟩ :: pieces')).head? = (chars' ++ rest').head? := by
        rw [head?_spacedOut hchars', List.head?_append_of_ne_nil _ hchars']
      rw [hspaced, keptPieces_cut_space hchars hpiece (List.append_ne_nil_of_left_ne_nil hchars' rest') hhead]
      exact keptPieces_cons _ ih

/-- **The text of a piece is one piece by itself**, unless it only separates others. -/
theorem cut_chars {cs : List Char} {piece : Piece} (h : piece ∈ cut cs)
    (hshape : piece.shape.isTrivia = false) : cut piece.chars = [piece] := by
  obtain ⟨left, hleft, rfl⟩ := first_of_mem_cut h
  have hchars := chars_ne_nil_of_mem_cut h
  have hlength := length_take_first hleft
  have hfits := Shape.measure_first hleft
  have hfirst : Shape.first (left.take (Shape.first left).2 ++ left.drop (Shape.first left).2)
      = ((Shape.first left).1, (left.take (Shape.first left).2).length) := by
    rw [List.take_append_drop, hlength]
  have halone : Shape.first (left.take (Shape.first left).2 ++ [])
      = ((Shape.first left).1, (left.take (Shape.first left).2).length) := by
    rcases Shape.settled_or_openString hshape with hsettled | hopen
    · exact Shape.first_apart apart_nil hsettled hchars hfirst
    · -- nothing follows a string without an end
      have hall : (Shape.first left).2 = left.length := by
        rw [show (Shape.first left).1 = .openString from hopen] at hfits
        exact Shape.openString?_eq_length hfits
      rw [hall, List.drop_length] at hfirst
      rw [hall]
      exact hfirst
  have hcut := cut_of_first hchars halone
  rwa [List.append_nil] at hcut

/-! ### Tokens of pieces -/

namespace Token

/-- Kind, text and value of the token of a piece. -/
def formOf? (piece : Piece) : Option (Kind × String × Literal) :=
  (ofPiece .standard .tolerant piece 0).toOption.map form

theorem exists_make_form (kind : Kind) {b : Bool} (hkind : kind.isTrivia = b) (text : String)
    (value : Literal) (named : kind.isNamed = true → value.isText = true) :
    ∃ shown : Kind × String × Literal, shown.1.isTrivia = b ∧
      ∀ pos, ∃ t, make .standard kind text pos value named = .ok t ∧ t.form = shown := by
  refine ⟨(kind, text, value), hkind, fun pos => ?_⟩
  obtain ⟨color, hmake⟩ := make_standard kind text pos value named
  exact ⟨_, hmake, rfl⟩

theorem kindOf_isTrivia {text : String} {kind : Kind} (h : text ∈ Shape.symbols)
    (hkind : Lexicon.standard.kindOf text = .ok kind) : kind.isTrivia = false := by
  have hall : ∀ text ∈ Shape.symbols, ∀ kind ∈ (Lexicon.standard.kindOf text).toOption,
      kind.isTrivia = false := by decide
  exact hall text h kind (by rw [hkind]; rfl)

/-- A piece has the same token at every place but for the place, and the token only separates others if
the piece does. -/
theorem exists_form {piece : Piece} (hpiece : piece.Sound) :
    ∃ shown : Kind × String × Literal, shown.1.isTrivia = piece.shape.isTrivia ∧
      ∀ pos, ∃ t, ofPiece .standard .tolerant piece pos = .ok t ∧ t.form = shown := by
  simp only [ofPiece]
  cases hshape : piece.shape with
  | openComment =>
    obtain ⟨shown, htrivia, hmake⟩ :=
      exists_make_form .comment rfl (String.ofList piece.chars) .null (Kind.unnamed rfl)
    refine ⟨shown, htrivia, fun pos => ?_⟩
    obtain ⟨t, ht, hform⟩ := hmake pos
    exact ⟨t.unclosed, by rw [ht]; rfl, hform⟩
  | number =>
    cases hvalue : numberValue? piece.chars with
    | none => exact exists_make_form .unknown rfl (String.ofList piece.chars) .null (Kind.unnamed rfl)
    | some value => exact exists_make_form _ (by rfl) _ _ _
  | symbol =>
    obtain ⟨kind, hkind, -⟩ := kindOf_standard (hpiece hshape)
    simp only [hkind]
    exact exists_make_form kind (kindOf_isTrivia (hpiece hshape) hkind) _ _ _
  | openString => exact exists_make_form .unknown rfl (String.ofList piece.chars) .null (Kind.unnamed rfl)
  | _ => exact exists_make_form _ (by rfl) _ _ _

theorem ofPiece_form {piece : Piece} (hpiece : piece.Sound) {pos : Nat} {t : Token}
    (h : ofPiece .standard .tolerant piece pos = .ok t) :
    formOf? piece = some t.form ∧ t.isTrivia = piece.shape.isTrivia := by
  obtain ⟨shown, htrivia, hevery⟩ := exists_form hpiece
  obtain ⟨u, hu, hform⟩ := hevery pos
  obtain ⟨v, hv, hform'⟩ := hevery 0
  obtain rfl : u = t := Except.ok.inj (hu.symm.trans h)
  constructor
  · rw [formOf?, hv, hform, ← hform']
    rfl
  · rw [← htrivia, ← hform]
    rfl

/-- **What is significant in the tokens of pieces is what the kept pieces stand for.** -/
theorem significant_forms {pieces : List Piece} (hpieces : ∀ piece ∈ pieces, piece.Sound) {pos : Nat}
    {tokens : List Token} (h : ofPieces .standard .tolerant pos pieces = .ok tokens) :
    (Grammar.significant tokens).map (fun t => some t.form) = (keptPieces pieces).map formOf? := by
  induction pieces generalizing pos tokens with
  | nil =>
    cases h
    rfl
  | cons piece pieces ih =>
    obtain ⟨hpiece, hothers⟩ := List.forall_mem_cons.1 hpieces
    obtain ⟨t, others, hmade, hmore, rfl⟩ := ofPieces_cons_ok.1 h
    obtain ⟨hform, htrivia⟩ := ofPiece_form hpiece hmade
    have hrest := ih hothers hmore
    rw [Grammar.significant, keptPieces] at hrest ⊢
    cases hshape : piece.shape.isTrivia with
    | true =>
      rw [List.filter_cons_of_neg (by simp [htrivia, hshape]), List.filter_cons_of_neg (by simp [hshape]),
        hrest]
    | false =>
      rw [List.filter_cons_of_pos (by simp [htrivia, hshape]), List.filter_cons_of_pos (by simp [hshape]),
        List.map_cons, List.map_cons, hrest, hform]

end Token

/-- **Tokens that are spaced apart stay what they are.**  The texts of the tolerant tokens, joined by spaces,
have the same significant tokens but for their offsets; and the text of each of them is one token by
itself. -/
theorem tokenize_spaced (source : String) :
    ∃ tokens spaced, tokenize .tolerant source = .ok tokens ∧
      tokenize .tolerant (" ".intercalate (tokens.map Token.text)) = .ok spaced ∧
      (Grammar.significant spaced).map Token.form = (Grammar.significant tokens).map Token.form ∧
      ∀ t ∈ tokens, t.isTrivia = false → ∃ u, tokenize .tolerant t.text = .ok [u] ∧ u.form = t.form := by
  obtain ⟨tokens, htokens⟩ := tokenize_tolerant source
  obtain ⟨spaced, hspaced⟩ := tokenize_tolerant (" ".intercalate (tokens.map Token.text))
  refine ⟨tokens, spaced, htokens, hspaced, ?_, fun t ht htrivia => ?_⟩
  · have htext : (" ".intercalate (tokens.map Token.text)).toList = spacedOut (cut source.toList) := by
      rw [String.toList_intercalate, List.map_map, spacedOut]
      exact congrArg _ (Token.row_of_ofPieces htokens).texts
    have hforms := Token.significant_forms (fun _ hpiece => sound_of_mem_cut hpiece) htokens
    have hforms' := Token.significant_forms (fun _ hpiece => sound_of_mem_cut hpiece) hspaced
    rw [htext, keptPieces_spacedOut (cuts_iff.2 rfl), ← hforms] at hforms'
    refine List.map_injective_iff.2 (Option.some_injective _) ?_
    rw [List.map_map, List.map_map]
    exact hforms'
  · obtain ⟨piece, hpiece, hmade⟩ := Token.ofPiece_of_mem htokens ht
    obtain ⟨hform, hshape⟩ := Token.ofPiece_form (sound_of_mem_cut hpiece) hmade
    obtain ⟨-, htext⟩ := Token.ofPiece_place hmade
    have hcut := cut_chars hpiece (hshape.symm.trans htrivia)
    obtain ⟨shown, -, hevery⟩ := Token.exists_form (sound_of_mem_cut hpiece)
    obtain ⟨u, hu, hsame⟩ := hevery 0
    refine ⟨u, ?_, ?_⟩
    · rw [tokenize, tokenizeWith, htext, String.toList_ofList, hcut]
      exact Token.ofPieces_cons_ok.2 ⟨u, [], hu, rfl, rfl⟩
    · obtain ⟨v, hv, hsame'⟩ := hevery t.pos
      rw [hsame, ← hsame', Except.ok.inj (hv.symm.trans hmade)]

-- a word takes along what follows, and so does a comment to the end of the line
example : ((tokenize .tolerant "trueish // x").toOption.getD []).map Token.text
    = ["true", "ish", " ", "// x"] := by decide

end Klex
