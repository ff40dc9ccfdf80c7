import Klex.Proofs.Token.Modes
import Mathlib.Data.List.DropRight
import Mathlib.Data.Nat.Find
import Mathlib.Order.Bounds.Defs

/-!
# Where string literals end

A string literal ends at the first delimiter of its kind that no backslash protects.  Backslashes protect
each other too, so what counts is whether the run of backslashes in front of a delimiter is even or odd.

* **`Closes`** — a delimiter closes the string that an earlier one opens.
* **`Shape.stringEnd?_eq_some_iff`** — **the scan for the end of a string stops at the first delimiter that
  closes it.**
* **`Unescapes`** — what the body of a string stands for, run of backslashes by run.
* **`Token.unescapes_iff`** — the decoder, which takes two characters at a time, reads every run in that way.
* **`Shape.first_delimiter`** — where the rest of a text begins with a delimiter, the next piece is a string,
  with an end or without.
* **`ofPiece_of_tokenize`** — a token is that of the piece that the first shape takes off the text at its
  place.
* **`tokenize_strings`** — **a string token ends just behind the first delimiter that closes it, and has the
  value of its body; without such a delimiter the token takes the rest of the text and is spoilt.**
-/

namespace Klex

/-! ### Delimiters that close a string -/

/-- The number of backslashes that a text ends with. -/
def slashesAtEnd (cs : List Char) : Nat := (cs.rtakeWhile (· == '\\')).length

/-- The delimiter at an offset `q` closes the string that is opened at an offset `p`: an even number of
backslashes, possibly none, stands before it and behind the opening delimiter. -/
def Closes (cs : List Char) (d : Char) (p q : Nat) : Prop :=
  p < q ∧ cs[q]? = some d ∧ slashesAtEnd ((cs.take q).drop (p + 1)) % 2 = 0

instance (cs : List Char) (d : Char) (p q : Nat) : Decidable (Closes cs d p q) :=
  inferInstanceAs (Decidable (_ ∧ _ ∧ _))

-- two backslashes protect each other and not the delimiter behind them
example : Closes "\"a\\\\\" + b".toList '"' 0 4 := by decide

/-- The same of an offset in the text behind the opening delimiter. -/
def EndsAt (d : Char) (cs : List Char) (n : Nat) : Prop :=
  cs[n]? = some d ∧ slashesAtEnd (cs.take n) % 2 = 0

theorem closes_iff_endsAt {cs : List Char} {d : Char} {p n : Nat} :
    Closes cs d p (n + (p + 1)) ↔ EndsAt d (cs.drop (p + 1)) n := by
  rw [Closes, EndsAt, List.getElem?_drop, List.drop_take, Nat.add_sub_cancel, Nat.add_comm]
  exact and_iff_right (by omega)

/-- The number of backslashes in terms of the reversed text. -/
theorem slashesAtEnd_eq (cs : List Char) :
    slashesAtEnd cs = (cs.reverse.takeWhile (· == '\\')).length :=
  List.length_reverse

section

variable {c : Char} {cs : List Char}

theorem slashesAtEnd_cons_of_ne (hc : c ≠ '\\') : slashesAtEnd (c :: cs) = slashesAtEnd cs := by
  rw [slashesAtEnd_eq, slashesAtEnd_eq, List.reverse_cons, List.takeWhile_append]
  split
  · next hall =>
    rw [List.takeWhile_cons_of_neg (by simpa using hc), List.append_nil]
    exact hall.symm
  · rfl

/-- What stands in front of another character than a backslash does not count. -/
theorem slashesAtEnd_cons_cons_of_ne (x : Char) (hc : c ≠ '\\') :
    slashesAtEnd (x :: c :: cs) = slashesAtEnd (c :: cs) := by
  have hnone : (cs.reverse ++ [c]).takeWhile (· == '\\') ≠ cs.reverse ++ [c] := by
    intro hall
    have hslash := List.takeWhile_eq_self_iff.1 hall c (by simp)
    exact hc (by simpa using hslash)
  rw [slashesAtEnd_eq, slashesAtEnd_eq, List.reverse_cons, List.reverse_cons, List.takeWhile_append, if_neg]
  intro hlength
  exact hnone ((List.takeWhile_prefix _).eq_of_length hlength)

theorem slashesAtEnd_slashes : slashesAtEnd ('\\' :: '\\' :: cs) % 2 = slashesAtEnd cs % 2 := by
  rw [slashesAtEnd_eq, slashesAtEnd_eq, List.reverse_cons, List.reverse_cons, List.append_assoc,
    List.takeWhile_append]
  split
  · next hall =>
    rw [List.length_append, hall]
    exact Nat.add_mod_right _ 2
  · rfl

end

/-! ### The scan for the end -/

section

variable {d : Char} {cs : List Char}

theorem endsAt_zero {c : Char} : EndsAt d (c :: cs) 0 ↔ c = d := by
  simp [EndsAt, slashesAtEnd]

/-- A character in front makes no difference, unless it is a backslash. -/
theorem endsAt_succ_of_ne {c : Char} (hc : c ≠ '\\') {n : Nat} :
    EndsAt d (c :: cs) (n + 1) ↔ EndsAt d cs n := by
  rw [EndsAt, EndsAt, List.getElem?_cons_succ, List.take_succ_cons, slashesAtEnd_cons_of_ne hc]

/-- A backslash makes no difference in front of a character that it does not protect. -/
theorem endsAt_backslash {c : Char} (hc : ¬ (c = '\\' ∨ c = d)) {n : Nat} :
    EndsAt d ('\\' :: c :: cs) (n + 1) ↔ EndsAt d (c :: cs) n := by
  obtain ⟨hslash, hdelim⟩ := not_or.1 hc
  cases n with
  | zero =>
    rw [endsAt_zero]
    simp [EndsAt, hdelim]
  | succ n =>
    rw [EndsAt, EndsAt, List.getElem?_cons_succ, List.take_succ_cons, List.take_succ_cons,
      slashesAtEnd_cons_cons_of_ne _ hslash]

/-- A backslash and what it protects make no difference together. -/
theorem endsAt_escape (hd : d ≠ '\\') {c : Char} (hc : c = '\\' ∨ c = d) {n : Nat} :
    EndsAt d ('\\' :: c :: cs) (n + 2) ↔ EndsAt d cs n := by
  rw [EndsAt, EndsAt, List.getElem?_cons_succ, List.getElem?_cons_succ, List.take_succ_cons,
    List.take_succ_cons]
  rcases hc with rfl | rfl
  · rw [slashesAtEnd_slashes]
  · rw [slashesAtEnd_cons_cons_of_ne _ hd, slashesAtEnd_cons_of_ne hd]

/-- The least of a set of numbers, where the set has been moved up. -/
theorem isLeast_shift {s t : Set Nat} {j : Nat} (hlow : ∀ n < j, n ∉ s)
    (hshift : ∀ n, n + j ∈ s ↔ n ∈ t) (n : Nat) : IsLeast s n ↔ ∃ m, m + j = n ∧ IsLeast t m := by
  constructor
  · rintro ⟨hmem, hleast⟩
    have hle : j ≤ n := Nat.le_of_not_lt fun hlt => hlow n hlt hmem
    obtain ⟨m, rfl⟩ := Nat.exists_eq_add_of_le' hle
    refine ⟨m, rfl, (hshift m).1 hmem, fun k hk => ?_⟩
    exact Nat.le_of_add_le_add_right (hleast ((hshift k).2 hk))
  · rintro ⟨m, rfl, hmem, hleast⟩
    refine ⟨(hshift m).2 hmem, fun k hk => ?_⟩
    have hle : j ≤ k := Nat.le_of_not_lt fun hlt => hlow k hlt hk
    obtain ⟨l, rfl⟩ := Nat.exists_eq_add_of_le' hle
    exact Nat.add_le_add_right (hleast ((hshift l).1 hk)) j

namespace Shape

theorem stringEnd?_pos {n : Nat} (h : stringEnd? d cs = some n) : 0 < n := by
  fun_induction stringEnd? d cs generalizing n with
  | case1 => cases h
  | case4 =>
    cases h
    exact Nat.one_pos
  | _ =>
    obtain ⟨m, _, rfl⟩ := Option.map_eq_some_iff.1 h
    omega

/-- Characters in front move the scan and the ends alike. -/
theorem stringEnd?_shift {cs' : List Char} {j : Nat} (hlow : ∀ n < j, ¬ EndsAt d cs' n)
    (hends : ∀ n, EndsAt d cs' (n + j) ↔ EndsAt d cs n)
    (h : ∀ n, stringEnd? d cs = some (n + 1) ↔ IsLeast {m | EndsAt d cs m} n) (n : Nat) :
    (stringEnd? d cs).map (· + j) = some (n + 1) ↔ IsLeast {m | EndsAt d cs' m} n := by
  rw [isLeast_shift (s := {m | EndsAt d cs' m}) (t := {m | EndsAt d cs m}) hlow hends,
    Option.map_eq_some_iff]
  constructor
  · rintro ⟨m, hm, hsum⟩
    obtain ⟨m, rfl⟩ := Nat.exists_eq_add_one_of_ne_zero (Nat.pos_iff_ne_zero.1 (stringEnd?_pos hm))
    exact ⟨m, by omega, (h m).1 hm⟩
  · rintro ⟨m, rfl, hm⟩
    exact ⟨m + 1, (h m).2 hm, by omega⟩

/-- **The scan stops just behind the first delimiter that ends the string.** -/
theorem stringEnd?_eq_some_iff (hd : d ≠ '\\') (n : Nat) :
    stringEnd? d cs = some (n + 1) ↔ IsLeast {m | EndsAt d cs m} n := by
  fun_induction stringEnd? d cs generalizing n with
  | case1 =>
    refine iff_of_false (by simp) fun hleast => ?_
    exact absurd hleast.1.1 (by simp)
  | case2 c cs hc ih =>
    have hescaped : c = '\\' ∨ c = d := by simpa using hc
    refine stringEnd?_shift (fun m hm => ?_) (fun m => endsAt_escape hd hescaped) ih n
    -- the backslash does not end the string, nor does what it protects
    rcases Nat.lt_succ_iff_lt_or_eq.1 hm with hzero | rfl
    · obtain rfl := Nat.lt_one_iff.1 hzero
      exact fun h => hd (endsAt_zero.1 h).symm
    · rintro ⟨-, heven⟩
      exact absurd heven (by simp only [List.take_succ_cons, List.take_zero]; decide)
  | case3 c cs hc ih =>
    have hescaped : ¬ (c = '\\' ∨ c = d) := by simpa using hc
    refine stringEnd?_shift (fun m hm => ?_) (fun m => endsAt_backslash hescaped) ih n
    obtain rfl := Nat.lt_one_iff.1 hm
    exact fun h => hd (endsAt_zero.1 h).symm
  | case4 cs hother =>
    have hleast : IsLeast {m | EndsAt d (d :: cs) m} 0 :=
      ⟨endsAt_zero.2 rfl, fun m _ => Nat.zero_le m⟩
    constructor
    · intro h
      obtain rfl : n = 0 := by simpa using h.symm
      exact hleast
    · intro h
      rw [Nat.le_zero.1 (h.2 hleast.1)]
  | case5 c cs hother hc ih =>
    refine stringEnd?_shift (fun m hm => ?_) (fun m => ?_) ih n
    · obtain rfl := Nat.lt_one_iff.1 hm
      exact fun h => hc (endsAt_zero.1 h)
    · by_cases hslash : c = '\\'
      · -- a backslash that nothing follows
        cases cs with
        | nil => simp [EndsAt]
        | cons c' cs => exact (hother c' cs hslash rfl).elim
      · exact endsAt_succ_of_ne hslash

/-- The end that the scan finds, as an offset in a text with the opening delimiter at `p`. -/
theorem isLeast_of_stringEnd? (hd : d ≠ '\\') {rest : List Char} {p n : Nat}
    (hrest : cs.drop (p + 1) = rest) (h : stringEnd? d rest = some n) :
    IsLeast {q | Closes cs d p q} (p + n) := by
  subst hrest
  obtain ⟨m, rfl⟩ := Nat.exists_eq_add_one_of_ne_zero (Nat.pos_iff_ne_zero.1 (stringEnd?_pos h))
  have hmoved := isLeast_shift (s := {q | Closes cs d p q}) (t := {m | EndsAt d (cs.drop (p + 1)) m})
    (j := p + 1) (fun q hq hcloses => absurd hcloses.1 (by omega)) (fun m => closes_iff_endsAt)
  exact (hmoved _).2 ⟨m, by omega, (stringEnd?_eq_some_iff hd m).1 h⟩

theorem not_closes_of_stringEnd? (hd : d ≠ '\\') {rest : List Char} {p : Nat}
    (hrest : cs.drop (p + 1) = rest) (h : stringEnd? d rest = none) (q : Nat) : ¬ Closes cs d p q := by
  classical
  subst hrest
  intro hcloses
  obtain ⟨n, rfl⟩ := Nat.exists_eq_add_of_le' hcloses.1
  have hends : ∃ m, EndsAt d (cs.drop (p + 1)) m := ⟨n, closes_iff_endsAt.1 hcloses⟩
  have hleast : IsLeast {m | EndsAt d (cs.drop (p + 1)) m} (Nat.find hends) :=
    ⟨Nat.find_spec hends, fun m hm => Nat.find_min' hends hm⟩
  rw [(stringEnd?_eq_some_iff hd _).2 hleast] at h
  cases h

end Shape

end

/-! ### What the body stands for -/

/-- What the body of a string between delimiters `d` stands for.  Every run of backslashes becomes half as
many, rounded up, unless it is odd and in front of the delimiter: then its last backslash gives way to the
delimiter. -/
inductive Unescapes (d : Char) : List Char → List Char → Prop
  | last (n : Nat) : Unescapes d (List.replicate n '\\') (List.replicate ((n + 1) / 2) '\\')
  | delimiter {n : Nat} {cs value : List Char} (odd : n % 2 = 1) (others : Unescapes d cs value) :
      Unescapes d (List.replicate n '\\' ++ d :: cs) (List.replicate (n / 2) '\\' ++ d :: value)
  | other {n : Nat} {c : Char} {cs value : List Char} (plain : c ≠ '\\') (free : c = d → n % 2 = 0)
      (others : Unescapes d cs value) :
      Unescapes d (List.replicate n '\\' ++ c :: cs) (List.replicate ((n + 1) / 2) '\\' ++ c :: value)

namespace Token

section

variable {d : Char}

/-- The decoder takes a run of backslashes two at a time. -/
theorem decodeBody_replicate (n : Nat) (cs : List Char) :
    decodeBody d (List.replicate n '\\' ++ cs)
      = List.replicate (n / 2) '\\' ++ decodeBody d (List.replicate (n % 2) '\\' ++ cs) := by
  induction n using Nat.twoStepInduction with
  | zero => rfl
  | one => rfl
  | more n ih _ =>
    have hhalf : (n + 2) / 2 = n / 2 + 1 := by omega
    rw [hhalf, Nat.add_mod_right, List.replicate_succ, List.replicate_succ, List.replicate_succ,
      List.cons_append, List.cons_append, List.cons_append, ← ih, decodeBody]
    rfl

theorem decodeBody_cons {c : Char} (hc : c ≠ '\\') (cs : List Char) :
    decodeBody d (c :: cs) = c :: decodeBody d cs := by
  rw [decodeBody]
  intro c' cs' hslash
  exact absurd hslash hc

theorem decodeBody_slashes (n : Nat) :
    decodeBody d (List.replicate n '\\') = List.replicate ((n + 1) / 2) '\\' := by
  have hrun := decodeBody_replicate (d := d) n []
  rw [List.append_nil, List.append_nil] at hrun
  rw [hrun]
  rcases Nat.mod_two_eq_zero_or_one n with heven | hodd
  · rw [heven, show (n + 1) / 2 = n / 2 by omega]
    exact List.append_nil _
  · rw [hodd, show (n + 1) / 2 = n / 2 + 1 by omega]
    exact List.replicate_succ'.symm

theorem decodeBody_odd {n : Nat} (hodd : n % 2 = 1) (cs : List Char) :
    decodeBody d (List.replicate n '\\' ++ d :: cs)
      = List.replicate (n / 2) '\\' ++ d :: decodeBody d cs := by
  rw [decodeBody_replicate, hodd]
  refine congrArg (List.replicate (n / 2) '\\' ++ ·) ?_
  show decodeBody d ('\\' :: d :: cs) = d :: decodeBody d cs
  simp [decodeBody]

theorem decodeBody_other {n : Nat} {c : Char} (hc : c ≠ '\\') (hfree : c = d → n % 2 = 0)
    (cs : List Char) :
    decodeBody d (List.replicate n '\\' ++ c :: cs)
      = List.replicate ((n + 1) / 2) '\\' ++ c :: decodeBody d cs := by
  rw [decodeBody_replicate]
  rcases Nat.mod_two_eq_zero_or_one n with heven | hodd
  · rw [heven, show (n + 1) / 2 = n / 2 by omega]
    exact congrArg (List.replicate (n / 2) '\\' ++ ·) (decodeBody_cons hc cs)
  · have hdelim : c ≠ d := fun h => absurd (hfree h) (by omega)
    have hstays : decodeBody d ('\\' :: c :: cs) = '\\' :: c :: decodeBody d cs := by
      rw [decodeBody, if_neg (by simp [hc, hdelim]), decodeBody_cons hc]
    rw [hodd, show (n + 1) / 2 = n / 2 + 1 by omega, List.replicate_succ' (n := n / 2),
      List.append_assoc]
    exact congrArg (List.replicate (n / 2) '\\' ++ ·) hstays

/-- Every body with a run of backslashes in front stands for something. -/
theorem exists_unescapes (n : Nat) (cs : List Char) :
    ∃ value, Unescapes d (List.replicate n '\\' ++ cs) value := by
  induction cs generalizing n with
  | nil =>
    rw [List.append_nil]
    exact ⟨_, .last n⟩
  | cons c cs ih =>
    obtain ⟨value, hvalue⟩ := ih 0
    by_cases hslash : c = '\\'
    · -- the run goes on
      obtain ⟨value, hvalue⟩ := ih (n + 1)
      rw [List.replicate_succ', List.append_assoc] at hvalue
      exact ⟨value, hslash ▸ hvalue⟩
    · by_cases hescaped : c = d ∧ n % 2 = 1
      · obtain ⟨rfl, hodd⟩ := hescaped
        exact ⟨_, .delimiter hodd hvalue⟩
      · exact ⟨_, .other hslash (fun hc => by have := not_and.1 hescaped hc; omega) hvalue⟩

/-- **The decoder goes by runs of backslashes.** -/
theorem unescapes_iff {body value : List Char} :
    Unescapes d body value ↔ value = decodeBody d body := by
  have hreads : ∀ {body value}, Unescapes d body value → value = decodeBody d body := by
    intro body value h
    induction h with
    | last n => exact (decodeBody_slashes n).symm
    | delimiter hodd _ ih => rw [decodeBody_odd hodd, ← ih]
    | other hplain hfree _ ih => rw [decodeBody_other hplain hfree, ← ih]
  refine ⟨hreads, ?_⟩
  rintro rfl
  obtain ⟨value, hvalue⟩ := exists_unescapes (d := d) 0 body
  exact hreads hvalue ▸ hvalue

end

end Token

/-! ### Tokens at their places -/

namespace Shape

/-- Of the shapes that are tried before strings without an end only strings begin with a delimiter. -/
theorem measure_delimiter {d : Char} (hd : isDelimiter d = true) (cs : List Char) :
    ∀ shape ∈ earlier .openString, shape ≠ .string → shape.measure (d :: cs) = none := by
  have hcases : d = '"' ∨ d = '\'' ∨ d = '\x60' := by simpa [isDelimiter, or_assoc] using hd
  have hearlier : earlier .openString
      = [.whitespace, .comment, .openComment, .boolean, .null, .identifier, .string] := rfl
  simp only [hearlier, List.forall_mem_cons]
  rcases hcases with rfl | rfl | rfl
  all_goals exact ⟨fun _ => rfl, fun _ => rfl, fun _ => rfl, fun _ => rfl, fun _ => rfl, fun _ => rfl,
    fun h => (h rfl).elim, by simp⟩

/-- **At a delimiter there is a string, with an end or without.** -/
theorem first_delimiter {d : Char} (hd : isDelimiter d = true) (cs : List Char) :
    first (d :: cs) = match stringEnd? d cs with
      | some n => (.string, 1 + n)
      | none => (.openString, 1 + cs.length) := by
  have hearlier := measure_delimiter hd cs
  have hstring : Shape.string.measure (d :: cs) = (stringEnd? d cs).map (1 + ·) := by
    rw [Shape.measure, string?, if_pos hd]
  cases hend : stringEnd? d cs with
  | some n =>
    rw [hend] at hstring
    refine (first_eq_iff (List.cons_ne_nil d cs)).2 ⟨hstring, fun other hother => ?_⟩
    have hmem : ∀ other ∈ earlier .string, other ∈ earlier .openString ∧ other ≠ .string := by decide
    exact hearlier other (hmem other hother).1 (hmem other hother).2
  | none =>
    have hopen : Shape.openString.measure (d :: cs) = some (1 + cs.length) := by
      rw [Shape.measure, openString?, if_pos hd]
    refine (first_eq_iff (List.cons_ne_nil d cs)).2 ⟨hopen, fun other hother => ?_⟩
    by_cases hother' : other = .string
    · rw [hother', hstring, hend]
      rfl
    · exact hearlier other hother hother'

end Shape

theorem Token.ofPiece_of_cuts {lex : Lexicon} {mode : Mode} (before : List Char) {cs : List Char}
    {pieces : List Piece} (hcuts : Cuts cs pieces) {tokens : List Token}
    (h : ofPieces lex mode before.length pieces = .ok tokens) {t : Token} (ht : t ∈ tokens) :
    ∃ left, (before ++ cs).drop t.pos = left ∧ left ≠ [] ∧
      ofPiece lex mode ⟨(Shape.first left).1, left.take (Shape.first left).2⟩ t.pos = .ok t := by
  induction hcuts generalizing before tokens with
  | nil =>
    cases h
    exact absurd ht List.not_mem_nil
  | @cons shape chars rest pieces hfirst hothers ih =>
    obtain ⟨u, others, hpiece, hmore, rfl⟩ := ofPieces_cons_ok.1 h
    rcases List.mem_cons.1 ht with rfl | ht
    · obtain ⟨hne, hhead⟩ := (Cuts.cons hfirst hothers).head
      obtain ⟨hpos, -⟩ := ofPiece_place hpiece
      refine ⟨chars ++ rest, ?_, hne, ?_⟩
      · rw [hpos, List.drop_left]
      · rw [← hhead, hpos]
        exact hpiece
    · rw [← List.append_assoc]
      rw [← List.length_append] at hmore
      exact ih _ hmore ht

/-- **A token is that of the piece that the first shape takes off the text at its place.** -/
theorem ofPiece_of_tokenize {mode : Mode} {source : String} {tokens : List Token}
    (h : tokenize mode source = .ok tokens) {t : Token} (ht : t ∈ tokens) :
    ∃ left, source.toList.drop t.pos = left ∧ left ≠ [] ∧
      Token.ofPiece .standard mode ⟨(Shape.first left).1, left.take (Shape.first left).2⟩ t.pos = .ok t :=
  Token.ofPiece_of_cuts [] (cuts_iff.2 rfl) h ht

/-- A token in terms of its first character and of what stands behind that. -/
theorem ofPiece_of_getElem? {mode : Mode} {source : String} {tokens : List Token}
    (h : tokenize mode source = .ok tokens) {t : Token} (ht : t ∈ tokens) {c : Char}
    (hc : source.toList[t.pos]? = some c) :
    ∃ cs, source.toList.drop (t.pos + 1) = cs ∧ source.length = t.pos + 1 + cs.length ∧
      Token.ofPiece .standard mode ⟨(Shape.first (c :: cs)).1, (c :: cs).take (Shape.first (c :: cs)).2⟩
        t.pos = .ok t := by
  obtain ⟨left, hleft, -, hpiece⟩ := ofPiece_of_tokenize h ht
  rw [← List.head?_drop, hleft] at hc
  obtain ⟨cs, rfl⟩ := List.head?_eq_some_iff.1 hc
  refine ⟨cs, ?_, ?_, hpiece⟩
  · rw [← List.tail_drop, hleft]
    rfl
  · have hlength := congrArg List.length hleft
    rw [List.length_drop, String.length_toList, List.length_cons] at hlength
    omega

/-! ### Tokens that begin with a delimiter -/

namespace Token

section

variable {d : Char} {cs : List Char} {t : Token}

theorem ofPiece_string {mode : Mode} {n : Nat} (hn : n ≤ cs.length)
    (h : ofPiece .standard mode ⟨.string, (d :: cs).take (1 + n)⟩ t.pos = .ok t) :
    t.kind = .string ∧ t.stop = t.pos + 1 + n ∧
      t.value = .text (String.ofList (decodeBody d (cs.take (n - 1)))) := by
  rw [Nat.add_comm, List.take_succ_cons] at h
  have hbody : (cs.take n).dropLast = cs.take (n - 1) := by
    rw [List.dropLast_eq_take, List.length_take_of_le hn, List.take_take, Nat.min_eq_left (by omega)]
  obtain ⟨color, hmake⟩ := make_standard .string (String.ofList (d :: cs.take n)) t.pos
    (.text (String.ofList (decodeString (d :: cs.take n)))) (Kind.unnamed rfl)
  have hsame := hmake.symm.trans h
  obtain ⟨-, htext⟩ := ofPiece_place h
  injection hsame with hsame
  refine ⟨?_, ?_, ?_⟩
  · rw [← hsame]
  · rw [stop, htext, String.length_ofList, List.length_cons, List.length_take_of_le hn]
    omega
  · rw [← hsame, ← hbody]
    rfl

theorem ofPiece_openString (hd : Shape.isDelimiter d = true)
    (h : ofPiece .standard .tolerant ⟨.openString, (d :: cs).take (1 + cs.length)⟩ t.pos = .ok t) :
    t.kind = .unknown ∧ t.stop = t.pos + 1 + cs.length ∧ t.isSpoilt = true ∧
      t.complaint = .unterminatedString t.stop := by
  obtain ⟨-, htext⟩ := ofPiece_place h
  rw [Nat.add_comm, List.take_succ_cons, List.take_length] at h htext
  obtain ⟨color, hmake⟩ := make_standard .unknown (String.ofList (d :: cs)) t.pos .null (Kind.unnamed rfl)
  have hsame := hmake.symm.trans h
  injection hsame with hsame
  have hkind : t.kind = .unknown := by rw [← hsame]
  have hopens : t.opensString = true := by
    rw [opensString, htext, String.toList_ofList]
    exact hd
  refine ⟨hkind, ?_, ?_, ?_⟩
  · rw [stop, htext, String.length_ofList, List.length_cons]
    omega
  · rw [isSpoilt, hkind, hopens]
    rfl
  · rw [complaint, if_pos hopens]

end

end Token

/-- **A string token ends just behind the first delimiter that closes it, and has the value of its body;
without such a delimiter the token takes the rest of the text and is spoilt.** -/
theorem tokenize_strings (source : String) :
    ∃ tokens, tokenize .tolerant source = .ok tokens ∧
      tokenize .strict source = Token.verdict tokens ∧
      ∀ t ∈ tokens, ∀ d, Shape.isDelimiter d = true → source.toList[t.pos]? = some d →
        ((∃ q, Closes source.toList d t.pos q) →
          ∃ q, IsLeast {q | Closes source.toList d t.pos q} q ∧ t.kind = .string ∧ t.stop = q + 1 ∧
            ∃ value, t.value = .text (String.ofList value) ∧
              Unescapes d ((source.toList.take q).drop (t.pos + 1)) value) ∧
        ((∀ q, ¬ Closes source.toList d t.pos q) →
          t.kind = .unknown ∧ t.stop = source.length ∧ t.isSpoilt = true ∧
            t.complaint = .unterminatedString source.length) := by
  obtain ⟨tokens, htolerant, hstrict⟩ := tokenize_verdict source
  refine ⟨tokens, htolerant, hstrict, fun t ht d hdelimiter hopening => ?_⟩
  obtain ⟨cs, hbehind, hlength, hpiece⟩ := ofPiece_of_getElem? htolerant ht hopening
  have hd : d ≠ '\\' := by
    rintro rfl
    exact absurd hdelimiter (by decide)
  have hfirst := Shape.first_delimiter hdelimiter cs
  cases hscan : Shape.stringEnd? d cs with
  | some n =>
    rw [hscan] at hfirst
    rw [hfirst] at hpiece
    have hleast := Shape.isLeast_of_stringEnd? hd hbehind hscan
    have hcloses := hleast.1
    have hn : n ≤ cs.length := by
      have hlt := (List.getElem?_eq_some_iff.1 hcloses.2.1).1
      rw [String.length_toList] at hlt
      omega
    obtain ⟨hkind, hstop, hvalue⟩ := Token.ofPiece_string hn hpiece
    refine ⟨fun _ => ⟨t.pos + n, hleast, hkind, by omega, _, hvalue, ?_⟩, fun h => (h _ hcloses).elim⟩
    rw [List.drop_take, hbehind, show t.pos + n - (t.pos + 1) = n - 1 by omega]
    exact Token.unescapes_iff.2 rfl
  | none =>
    rw [hscan] at hfirst
    rw [hfirst] at hpiece
    have hnone := Shape.not_closes_of_stringEnd? hd hbehind hscan
    obtain ⟨hkind, hstop, hspoilt, hcomplaint⟩ := Token.ofPiece_openString hdelimiter hpiece
    rw [hcomplaint, hstop, hlength]
    exact ⟨fun ⟨q, hq⟩ => (hnone q hq).elim, fun _ => ⟨hkind, rfl, hspoilt, rfl⟩⟩

-- of three backslashes the last one protects the delimiter; the second string is never closed
example : ((tokenize .tolerant "\"a\\\\\\\"b\" 'c").toOption.getD []).map (fun t => (t.kind, t.stop))
    = [(.string, 8), (.whitespace, 9), (.unknown, 11)] := by decide

end Klex
