import Klex.Proofs.Token.Delimiter
import Mathlib.Data.List.TakeDrop
import Mathlib.Data.Nat.Digits.Defs

/-!
# Numerals

Texts of the form of a number are wider than the numbers: every row of digits in them may be empty.

* **`Numeral`** — a text of that form, in its parts.
* **`Numeral.Reads`**, **`Numeral.literal`** — whether it stands for a number, and for which.
* **`Numeral.startOf`** — the numeral at the start of a text; **`Numeral.length_le_startOf`** says that **it is
  the longest one**, and `Numeral.number?_eq` that the scanner takes it.
* **`Numeral.numberValue?_chars`** — **the number that a numeral is read as**, if there is one.
* **`tokenize_numbers`** — **a token at a digit or a point has the longest numeral for its text, and its value
  is that of the numeral, unless it is spoilt.**
* **`tokenize_zeros`** — a row of digits that is too long is not read as a whole number, however small it is.
-/

namespace Klex

/-! ### The form of numerals -/

/-- A text of the form of a number, in its parts: digits, perhaps a point and digits, perhaps the mark of an
exponent and digits.  Each row of digits may be empty. -/
structure Numeral where
  whole : List Char
  fraction : Option (List Char)
  /-- The mark and the digits behind it. -/
  exponent : Option (Char × List Char)
  whole_digits : ∀ c ∈ whole, c.isDigit = true
  fraction_digits : ∀ ds ∈ fraction, ∀ c ∈ ds, c.isDigit = true
  exponent_digits : ∀ e ∈ exponent, ∀ c ∈ e.2, c.isDigit = true
  exponent_mark : ∀ e ∈ exponent, e.1 = 'e' ∨ e.1 = 'E'

namespace Numeral

/-- A point and the digits behind it. -/
def pointed : Option (List Char) → List Char
  | none => []
  | some ds => '.' :: ds

/-- The mark of an exponent and the digits behind it. -/
def marked : Option (Char × List Char) → List Char
  | none => []
  | some (mark, ds) => mark :: ds

/-- What stands behind the first row of digits. -/
def rest (n : Numeral) : List Char := pointed n.fraction ++ marked n.exponent

/-- The text. -/
def chars (n : Numeral) : List Char := n.whole ++ n.rest

/-- The digits in front of the exponent. -/
def mantissa (n : Numeral) : List Char := n.whole ++ n.fraction.getD []

/-- The digits of the exponent. -/
def power (n : Numeral) : List Char := (n.exponent.map Prod.snd).getD []

/-- The number that a row of digits stands for. -/
def valueOf (ds : List Char) : Nat := Nat.ofDigits 10 (ds.reverse.map fun c => c.toNat - '0'.toNat)

/-- Whether there is a digit in front of the exponent, and one in the exponent if there is one. -/
def Reads (n : Numeral) : Prop := n.mantissa ≠ [] ∧ ∀ e ∈ n.exponent, e.2 ≠ []

instance (n : Numeral) : Decidable n.Reads :=
  inferInstanceAs (Decidable (_ ∧ _))

/-- Whether there are digits only. -/
def IsPlain (n : Numeral) : Prop := n.fraction = none ∧ n.exponent = none

instance (n : Numeral) : Decidable n.IsPlain :=
  inferInstanceAs (Decidable (_ ∧ _))

/-- The double nearest to the mantissa times the power of ten. -/
def double (n : Numeral) : Float :=
  Decimal.nearest (valueOf n.mantissa) ((valueOf n.power : Int) - (n.fraction.getD []).length)

/-- The value of a numeral that reads.  Of digits only it is the number itself, unless that is too great or
the digits are too many; otherwise it is a double. -/
def literal (n : Numeral) : Literal :=
  if n.IsPlain ∧ n.whole.length ≤ Literal.maxIntDigits ∧ valueOf n.whole ≤ Literal.maxInt then
    .int (valueOf n.whole)
  else
    .float n.double

/-! ### Parts of a numeral -/

/-- The mark of an exponent is no digit and no point. -/
theorem head_marked {e : Option (Char × List Char)} (hmark : ∀ x ∈ e, x.1 = 'e' ∨ x.1 = 'E') :
    ∀ c ∈ (marked e).head?, c.isDigit = false ∧ c ≠ '.' := by
  intro c hc
  cases e with
  | none => cases hc
  | some x =>
    obtain ⟨mark, ds⟩ := x
    cases hc
    have hcases : c = 'e' ∨ c = 'E' := hmark _ rfl
    rcases hcases with rfl | rfl <;> decide

theorem head_rest (n : Numeral) : ∀ c ∈ n.rest.head?, c.isDigit = false := by
  intro c hc
  rw [rest] at hc
  cases hfraction : n.fraction with
  | none =>
    rw [hfraction] at hc
    exact (head_marked n.exponent_mark c hc).1
  | some ds =>
    rw [hfraction] at hc
    cases hc
    rfl

/-! ### Where numerals end -/

/-- The digits behind a point at the start of a text, if there is one. -/
def fractionOf : List Char → Option (List Char)
  | '.' :: cs => some (cs.takeWhile Char.isDigit)
  | _ => none

/-- The exponent at the start of a text, if there is one. -/
def exponentOf : List Char → Option (Char × List Char)
  | c :: cs => if c = 'e' ∨ c = 'E' then some (c, cs.takeWhile Char.isDigit) else none
  | [] => none

/-- What stands behind a fraction at the start of a text. -/
def behindFraction (cs : List Char) : List Char := cs.drop (pointed (fractionOf cs)).length

theorem fractionOf_digits (cs : List Char) : ∀ ds ∈ fractionOf cs, ∀ c ∈ ds, c.isDigit = true := by
  intro ds hds
  rw [Option.mem_def, fractionOf.eq_def] at hds
  split at hds
  · rw [← Option.some.inj hds]
    exact fun _ hc => List.mem_takeWhile_imp hc
  · cases hds

theorem exponentOf_form {cs : List Char} {e : Char × List Char} (h : e ∈ exponentOf cs) :
    (∀ c ∈ e.2, c.isDigit = true) ∧ (e.1 = 'e' ∨ e.1 = 'E') := by
  rw [Option.mem_def, exponentOf.eq_def] at h
  split at h
  · split at h
    · next hmark =>
      rw [← Option.some.inj h]
      exact ⟨fun _ hdigit => List.mem_takeWhile_imp hdigit, hmark⟩
    · cases h
  · cases h

/-- The numeral at the start of a text, each part of which takes as much as it can. -/
def startOf (cs : List Char) : Numeral where
  whole := cs.takeWhile Char.isDigit
  fraction := fractionOf (cs.dropWhile Char.isDigit)
  exponent := exponentOf (behindFraction (cs.dropWhile Char.isDigit))
  whole_digits _ hc := List.mem_takeWhile_imp hc
  fraction_digits := fractionOf_digits _
  exponent_digits _ he := (exponentOf_form he).1
  exponent_mark _ he := (exponentOf_form he).2

theorem pointed_isPrefix (cs : List Char) : pointed (fractionOf cs) <+: cs := by
  fun_cases fractionOf cs with
  | case1 cs => exact List.cons_prefix_cons.2 ⟨rfl, List.takeWhile_prefix _⟩
  | case2 => exact List.nil_prefix

theorem marked_isPrefix (cs : List Char) : marked (exponentOf cs) <+: cs := by
  fun_cases exponentOf cs with
  | case1 c cs hc => exact List.cons_prefix_cons.2 ⟨rfl, List.takeWhile_prefix _⟩
  | case2 => exact List.nil_prefix
  | case3 => exact List.nil_prefix

theorem pointed_append_behindFraction (cs : List Char) : pointed (fractionOf cs) ++ behindFraction cs = cs :=
  List.prefix_iff_eq_append.1 (pointed_isPrefix cs)

theorem startOf_isPrefix (cs : List Char) : (startOf cs).chars <+: cs := by
  have hmark := marked_isPrefix (behindFraction (cs.dropWhile Char.isDigit))
  have hrest : (startOf cs).rest <+: cs.dropWhile Char.isDigit := by
    have happend := (List.prefix_append_right_inj (pointed (fractionOf (cs.dropWhile Char.isDigit)))).2 hmark
    rwa [pointed_append_behindFraction] at happend
  have happend := (List.prefix_append_right_inj (cs.takeWhile Char.isDigit)).2 hrest
  rwa [List.takeWhile_append_dropWhile] at happend

theorem behindFraction_eq {cs after : List Char} (h : cs = pointed (fractionOf cs) ++ after) :
    behindFraction cs = after := by
  have happend := pointed_append_behindFraction cs
  exact List.append_cancel_left (happend.trans h)

/-- An exponent at the start of a text is part of the one that is taken. -/
theorem marked_isPrefix_exponentOf {e : Option (Char × List Char)}
    (hmark : ∀ x ∈ e, x.1 = 'e' ∨ x.1 = 'E') (hdigits : ∀ x ∈ e, ∀ c ∈ x.2, c.isDigit = true)
    (tail : List Char) : marked e <+: marked (exponentOf (marked e ++ tail)) := by
  cases e with
  | none => exact List.nil_prefix
  | some x =>
    obtain ⟨mark, ds⟩ := x
    have htake : (ds ++ tail).takeWhile Char.isDigit = ds ++ tail.takeWhile Char.isDigit :=
      List.takeWhile_append_of_pos (hdigits _ rfl)
    show mark :: ds <+: marked (exponentOf (mark :: (ds ++ tail)))
    rw [exponentOf, if_pos (hmark _ rfl), htake]
    exact List.prefix_append (mark :: ds) _

theorem fractionOf_eq_none {cs : List Char} (h : ∀ c ∈ cs.head?, c ≠ '.') : fractionOf cs = none := by
  fun_cases fractionOf cs with
  | case1 cs => exact (h '.' rfl rfl).elim
  | case2 => rfl

/-- So are a fraction and an exponent. -/
theorem rest_isPrefix (n : Numeral) (tail : List Char) :
    n.rest <+: pointed (fractionOf (n.rest ++ tail))
      ++ marked (exponentOf (behindFraction (n.rest ++ tail))) := by
  have hexponent := marked_isPrefix_exponentOf n.exponent_mark n.exponent_digits tail
  have hhead := head_marked n.exponent_mark
  rw [rest]
  cases hfraction : n.fraction with
  | none =>
    cases he : n.exponent with
    | none => exact List.nil_prefix
    | some e =>
      rw [he] at hexponent hhead
      have hnone : fractionOf (marked (some e) ++ tail) = none :=
        fractionOf_eq_none fun c hc => (hhead c hc).2
      have hbehind : behindFraction (marked (some e) ++ tail) = marked (some e) ++ tail :=
        behindFraction_eq (by rw [hnone]; rfl)
      show marked (some e) <+: pointed (fractionOf (marked (some e) ++ tail))
        ++ marked (exponentOf (behindFraction (marked (some e) ++ tail)))
      rw [hbehind, hnone]
      exact hexponent
  | some ds =>
    have hds := n.fraction_digits ds hfraction
    have hpoint : ∀ cs, fractionOf (pointed (some ds) ++ cs) = some ((ds ++ cs).takeWhile Char.isDigit) :=
      fun cs => rfl
    cases he : n.exponent with
    | none =>
      have htake : (ds ++ tail).takeWhile Char.isDigit = ds ++ tail.takeWhile Char.isDigit :=
        List.takeWhile_append_of_pos hds
      rw [marked, List.append_nil, hpoint, htake]
      exact ((List.prefix_append (pointed (some ds)) _).trans (List.prefix_append _ _))
    | some e =>
      rw [he] at hexponent hhead
      have htake : (ds ++ (marked (some e) ++ tail)).takeWhile Char.isDigit = ds :=
        Shape.takeWhile_run hds (hhead e.1 rfl).1
      have hfirst : fractionOf (pointed (some ds) ++ (marked (some e) ++ tail)) = some ds := by
        rw [hpoint, htake]
      have hbehind : behindFraction (pointed (some ds) ++ (marked (some e) ++ tail))
          = marked (some e) ++ tail := behindFraction_eq (by rw [hfirst])
      rw [List.append_assoc, hbehind, hfirst]
      exact (List.prefix_append_right_inj _).2 hexponent

/-- **A numeral at the start of a text is part of the one that is taken.** -/
theorem chars_isPrefix (n : Numeral) (tail : List Char) : n.chars <+: (startOf (n.chars ++ tail)).chars := by
  rw [chars, List.append_assoc]
  by_cases hrest : n.rest = []
  · -- the first row of digits may go on behind the numeral
    have hwhole : (startOf (n.whole ++ (n.rest ++ tail))).whole
        = n.whole ++ (n.rest ++ tail).takeWhile Char.isDigit :=
      List.takeWhile_append_of_pos n.whole_digits
    rw [chars, hwhole, hrest, List.append_nil]
    exact (List.prefix_append n.whole _).trans (List.prefix_append _ _)
  · have hhead : (n.rest ++ tail).head?.any Char.isDigit = false := by
      obtain ⟨c, cs, hcons⟩ := List.exists_cons_of_ne_nil hrest
      rw [hcons]
      exact n.head_rest c (by rw [hcons]; rfl)
    have hwhole : (startOf (n.whole ++ (n.rest ++ tail))).whole = n.whole :=
      Shape.takeWhile_run n.whole_digits hhead
    have hbehind : (startOf (n.whole ++ (n.rest ++ tail))).rest
        = pointed (fractionOf (n.rest ++ tail)) ++ marked (exponentOf (behindFraction (n.rest ++ tail))) := by
      rw [rest]
      show pointed (fractionOf ((n.whole ++ (n.rest ++ tail)).dropWhile Char.isDigit)) ++
        marked (exponentOf (behindFraction ((n.whole ++ (n.rest ++ tail)).dropWhile Char.isDigit))) = _
      rw [Shape.dropWhile_run n.whole_digits hhead]
    rw [chars, hwhole, hbehind]
    exact (List.prefix_append_right_inj _).2 (n.rest_isPrefix tail)

/-- **No numeral at the start of a text is longer than the one that is taken.** -/
theorem length_le_startOf {n : Numeral} {cs : List Char} (h : n.chars <+: cs) :
    n.chars.length ≤ (startOf cs).chars.length := by
  obtain ⟨tail, rfl⟩ := h
  exact (n.chars_isPrefix tail).length_le

theorem drop_whole (cs : List Char) (k : Nat) :
    cs.drop ((cs.takeWhile Char.isDigit).length + k) = (cs.dropWhile Char.isDigit).drop k := by
  have happend : cs.takeWhile Char.isDigit ++ cs.dropWhile Char.isDigit = cs :=
    List.takeWhile_append_dropWhile
  have hdrop : (cs.takeWhile Char.isDigit ++ cs.dropWhile Char.isDigit).drop
      ((cs.takeWhile Char.isDigit).length + k) = (cs.dropWhile Char.isDigit).drop k :=
    List.drop_length_add_append k
  rwa [happend] at hdrop

/-- The scanner takes a point and the digits behind it one after the other. -/
theorem length_pointed {cs : List Char} (hcs : ∀ c ∈ cs.head?, c.isDigit = false) :
    (pointed (fractionOf cs)).length
      = Shape.pointLength cs + ((cs.drop (Shape.pointLength cs)).takeWhile Char.isDigit).length := by
  fun_cases fractionOf cs with
  | case1 cs => exact Nat.add_comm _ 1
  | case2 cs hpoint =>
    have hnone : Shape.pointLength cs = 0 := by
      fun_cases Shape.pointLength cs with
      | case1 cs => exact (hpoint cs rfl).elim
      | case2 => rfl
    rw [hnone, List.drop_zero]
    cases cs with
    | nil => rfl
    | cons c cs =>
      rw [List.takeWhile_cons_of_neg (by simp [hcs c rfl])]
      rfl

theorem length_marked (cs : List Char) : (marked (exponentOf cs)).length = Shape.exponentLength cs := by
  fun_cases exponentOf cs with
  | case1 c cs hc =>
    rw [Shape.exponentLength, if_pos (by simpa using hc), marked, List.length_cons, Nat.add_comm]
  | case2 c cs hc => rw [Shape.exponentLength, if_neg (by simpa using hc), marked, List.length_nil]
  | case3 => rfl

/-- **The scanner takes the numeral at the start of a text.** -/
theorem number?_eq {c : Char} (hc : Shape.opensNumber c = true) (cs : List Char) :
    Shape.number? (c :: cs) = some (startOf (c :: cs)).chars.length := by
  have hopens : (c.isDigit || c = '.') = true := by simpa [Shape.opensNumber] using hc
  rw [Shape.number?, if_pos hopens]
  generalize c :: cs = cs
  have hhead : ∀ c ∈ (cs.dropWhile Char.isDigit).head?, c.isDigit = false := by
    intro c hc
    have hnot := List.head?_dropWhile_not Char.isDigit cs
    rw [Option.mem_def.1 hc] at hnot
    exact hnot
  have hlength : (startOf cs).chars.length = (cs.takeWhile Char.isDigit).length
      + ((pointed (fractionOf (cs.dropWhile Char.isDigit))).length
        + (marked (exponentOf (behindFraction (cs.dropWhile Char.isDigit)))).length) := by
    rw [chars, List.length_append, rest, List.length_append]
    rfl
  have hpoint := length_pointed hhead
  have hwhole := drop_whole cs 0
  rw [Nat.add_zero, List.drop_zero] at hwhole
  rw [hlength, length_marked, behindFraction, hpoint]
  simp only [drop_whole, hwhole, Nat.add_assoc]

theorem head_startOf {c : Char} (hc : Shape.opensNumber c = true) (cs : List Char) :
    (startOf (c :: cs)).chars.head? = some c := by
  have hpos := Shape.number?_pos (number?_eq hc cs)
  have hprefix := startOf_isPrefix (c :: cs)
  rw [List.prefix_iff_eq_take.1 hprefix, List.head?_take, if_neg (Nat.pos_iff_ne_zero.1 hpos)]
  rfl

/-- Whether a character can be part of a numeral. -/
def admits (c : Char) : Bool := Shape.opensNumber c || c == 'e' || c == 'E'

theorem admits_of_mem (n : Numeral) {c : Char} (hc : c ∈ n.chars) : admits c = true := by
  have hdigit : ∀ d : Char, d.isDigit = true → admits d = true := by
    intro d hd
    rw [admits, Shape.opensNumber, hd]
    rfl
  rw [chars, rest, List.mem_append, List.mem_append] at hc
  rcases hc with hwhole | hfraction | hexponent
  · exact hdigit c (n.whole_digits c hwhole)
  · cases hf : n.fraction with
    | none =>
      rw [hf] at hfraction
      cases hfraction
    | some ds =>
      rw [hf] at hfraction
      rcases List.mem_cons.1 hfraction with rfl | hmem
      · rfl
      · exact hdigit c (n.fraction_digits ds hf c hmem)
  · cases he : n.exponent with
    | none =>
      rw [he] at hexponent
      cases hexponent
    | some e =>
      rw [he] at hexponent
      rcases List.mem_cons.1 hexponent with rfl | hmem
      · rcases n.exponent_mark e he with hmark | hmark <;> rw [hmark] <;> rfl
      · exact hdigit c (n.exponent_digits e he c hmem)

/-- **A numeral is taken as it is in front of a character that cannot be part of one.** -/
theorem chars_startOf (n : Numeral) {tail : List Char} (htail : tail.head?.any admits = false) :
    (startOf (n.chars ++ tail)).chars = n.chars := by
  obtain ⟨more, hmore⟩ := n.chars_isPrefix tail
  have hprefix := startOf_isPrefix (n.chars ++ tail)
  rw [← hmore, List.prefix_append_right_inj] at hprefix
  cases more with
  | nil => rw [← hmore, List.append_nil]
  | cons c more =>
    obtain ⟨after, hafter⟩ := hprefix
    have hadmits : admits c = true := by
      apply admits_of_mem (startOf (n.chars ++ tail))
      rw [← hmore]
      exact List.mem_append_right _ List.mem_cons_self
    rw [← hafter] at htail
    exact absurd hadmits (by simpa using htail)

/-! ### What numerals stand for -/

theorem natOfDigits_eq (ds : List Char) : Decimal.natOfDigits ds = valueOf ds := by
  induction ds using List.reverseRecOn with
  | nil => rfl
  | append_singleton ds c ih =>
    rw [Decimal.natOfDigits] at ih ⊢
    rw [List.foldl_append, ih, valueOf, valueOf, List.reverse_append, List.reverse_singleton,
      List.singleton_append, List.map_cons, Nat.ofDigits_cons, Nat.add_comm]
    rfl

theorem span_digits {ds tail : List Char} (hds : ∀ c ∈ ds, c.isDigit = true)
    (htail : tail.head?.any Char.isDigit = false) : (ds ++ tail).span Char.isDigit = (ds, tail) := by
  rw [List.span_eq_takeWhile_dropWhile, Shape.takeWhile_run hds htail, Shape.dropWhile_run hds htail]

theorem any_head {cs : List Char} (h : ∀ c ∈ cs.head?, c.isDigit = false) :
    cs.head?.any Char.isDigit = false := by
  cases cs with
  | nil => rfl
  | cons c cs => exact h c rfl

theorem readFraction_rest (n : Numeral) :
    Decimal.readFraction n.rest = (n.fraction.getD [], marked n.exponent) := by
  have hhead := head_marked n.exponent_mark
  rw [rest]
  cases hfraction : n.fraction with
  | none =>
    show Decimal.readFraction (marked n.exponent) = ([], marked n.exponent)
    cases he : n.exponent with
    | none => rfl
    | some e =>
      rw [he] at hhead
      rw [Decimal.readFraction]
      intro cs hcons
      exact (hhead '.' (by rw [hcons]; rfl)).2 rfl
  | some ds => exact span_digits (n.fraction_digits ds hfraction) (any_head fun c hc => (hhead c hc).1)

theorem readExponent?_digits {ds : List Char} (hds : ∀ c ∈ ds, c.isDigit = true) :
    Decimal.readExponent? ds = if ds = [] then none else some (valueOf ds : Int) := by
  have hall : ds.all Char.isDigit = true := List.all_eq_true.2 hds
  cases ds with
  | nil => rfl
  | cons c ds =>
    have hc := hds c List.mem_cons_self
    rw [if_neg (List.cons_ne_nil c ds), Decimal.readExponent?]
    · simp only [List.isEmpty_cons, hall, Bool.false_or, Bool.not_true, Bool.false_eq_true, if_false]
      exact congrArg (fun n : Nat => some (n : Int)) (natOfDigits_eq _)
    · rintro ds' hsign
      obtain ⟨rfl, -⟩ := List.cons.inj hsign
      exact absurd hc (by decide)
    · rintro ds' hsign
      obtain ⟨rfl, -⟩ := List.cons.inj hsign
      exact absurd hc (by decide)

/-- **A numeral is read as the nearest double, if it reads at all.** -/
theorem readUnsigned?_chars (n : Numeral) :
    Decimal.readUnsigned? n.chars = if n.Reads then some n.double else none := by
  have hspan := span_digits n.whole_digits (any_head n.head_rest)
  have hdigits : n.whole ++ n.fraction.getD [] = n.mantissa := rfl
  rw [Decimal.readUnsigned?, chars]
  simp only [hspan, readFraction_rest, natOfDigits_eq, hdigits, List.isEmpty_iff]
  by_cases hmantissa : n.mantissa = []
  · rw [if_pos hmantissa, if_neg fun hreads => hreads.1 hmantissa]
  · rw [if_neg hmantissa]
    cases he : n.exponent with
    | none =>
      have hreads : n.Reads := ⟨hmantissa, by simp [he]⟩
      rw [if_pos hreads, double, power, he]
      rfl
    | some e =>
      obtain ⟨mark, ds⟩ := e
      have hreads : n.Reads ↔ ds ≠ [] := by simp [Reads, hmantissa, he]
      have hmark : mark = 'e' ∨ mark = 'E' := n.exponent_mark _ he
      have hpower := readExponent?_digits (n.exponent_digits _ he)
      simp only [marked]
      rw [if_pos (by simpa using hmark), hpower]
      by_cases hds : ds = []
      · rw [if_pos hds, if_neg (fun h => hreads.1 h hds)]
        rfl
      · rw [if_neg hds, if_pos (hreads.2 hds), double, power, he]
        rfl

theorem all_chars (n : Numeral) : n.chars.all Char.isDigit = true ↔ n.IsPlain := by
  rw [chars, List.all_append, List.all_eq_true.2 n.whole_digits, Bool.true_and, rest, List.all_append]
  cases hfraction : n.fraction with
  | some ds => simp [IsPlain, hfraction, pointed]
  | none =>
    cases he : n.exponent with
    | none => simp [IsPlain, hfraction, he, pointed, marked]
    | some e =>
      have hhead := (head_marked n.exponent_mark e.1 (by rw [he]; rfl)).1
      simp [IsPlain, hfraction, he, pointed, marked, hhead]

/-- **The number that a numeral stands for.** -/
theorem numberValue?_chars (n : Numeral) (hn : n.chars ≠ []) :
    Token.numberValue? n.chars = if n.Reads then some n.literal else none := by
  rw [Token.numberValue?]
  simp only [Bool.and_eq_true, all_chars, decide_eq_true_eq, natOfDigits_eq, readUnsigned?_chars]
  by_cases hplain : n.IsPlain
  · have hchars : n.chars = n.whole := by
      rw [chars, rest, hplain.1, hplain.2]
      exact List.append_nil _
    have hreads : n.Reads := by
      refine ⟨?_, by simp [hplain.2]⟩
      rw [mantissa, hplain.1]
      simpa [hchars] using hn
    rw [if_pos hreads, if_pos hreads, literal, hchars, apply_ite some, Option.map_some]
    simp only [and_assoc]
  · have hdouble : n.literal = .float n.double := by rw [literal, if_neg fun h => hplain h.1]
    rw [if_neg (fun h => hplain h.1.1), hdouble, apply_ite (Option.map Literal.float)]
    rfl

end Numeral

/-! ### Tokens of numerals -/

namespace Shape

theorem isAlpha_of_opensNumber {c : Char} (h : opensNumber c = true) : c.isAlpha = false := by
  have hcases : c.isDigit = true ∨ c = '.' := by simpa [opensNumber] using h
  rcases hcases with hdigit | rfl
  · have hrange : 48 ≤ c.toNat ∧ c.toNat ≤ 57 := Char.isDigit_iff_toNat.1 hdigit
    rw [Bool.eq_false_iff]
    intro halpha
    rcases Bool.or_eq_true_iff.1 halpha with hupper | hlower
    · have hle : 'A'.val ≤ c.val := (of_decide_eq_true hupper).1
      have hnat : 65 ≤ c.toNat := UInt32.le_iff_toNat_le.1 hle
      omega
    · have hle : 'a'.val ≤ c.val := of_decide_eq_true (Bool.and_eq_true_iff.1 hlower).1
      have hnat : 97 ≤ c.toNat := UInt32.le_iff_toNat_le.1 hle
      omega
  · decide

/-- The shapes that are tried before numbers do not begin with a digit or a point. -/
theorem measure_opensNumber {c : Char} (hc : opensNumber c = true) (cs : List Char) :
    ∀ shape ∈ earlier .number, shape.measure (c :: cs) = none := by
  have hne : ∀ d, opensNumber d = false → d ≠ c := by
    rintro d hd rfl
    rw [hc] at hd
    cases hd
  have hspace : isSpace c = false := by
    simp [isSpace, (hne ' ' rfl).symm, (hne '\r' rfl).symm, (hne '\n' rfl).symm, (hne '\t' rfl).symm]
  have hdelimiter : isDelimiter c = false := isDelimiter_of_opensNumber hc
  have hearlier : earlier .number = [.whitespace, .comment, .openComment, .boolean, .null, .identifier,
      .string, .openString] := rfl
  simp only [hearlier, List.forall_mem_cons]
  refine ⟨?_, ?_, ?_, ?_, ?_, ?_, ?_, ?_, by simp⟩
  · simp [measure, run?, hspace]
  · simp [measure, comment?, (hne '/' rfl).symm]
  · simp [measure, openComment?, (hne '/' rfl).symm]
  · simp [measure, word?, hne 't' rfl, hne 'f' rfl]
  · simp [measure, word?, hne 'n' rfl]
  · simp [measure, identifier?, isAlpha_of_opensNumber hc]
  · simp [measure, string?, hdelimiter]
  · simp [measure, openString?, hdelimiter]

/-- **At a digit or a point there is a number.** -/
theorem first_number {c : Char} (hc : opensNumber c = true) (cs : List Char) :
    first (c :: cs) = (.number, (Numeral.startOf (c :: cs)).chars.length) :=
  (first_eq_iff (List.cons_ne_nil c cs)).2 ⟨Numeral.number?_eq hc cs, measure_opensNumber hc cs⟩

/-- **A numeral is cut off as a piece of its own in front of a character that cannot be part of one.** -/
theorem first_chars (n : Numeral) (hopens : n.chars.head?.any opensNumber = true) {tail : List Char}
    (htail : tail.head?.any Numeral.admits = false) :
    first (n.chars ++ tail) = (.number, n.chars.length) := by
  cases hchars : n.chars with
  | nil =>
    rw [hchars] at hopens
    cases hopens
  | cons c cs =>
    rw [hchars] at hopens
    rw [List.cons_append, first_number hopens, ← List.cons_append, ← hchars, n.chars_startOf htail]

end Shape

namespace Token

section

variable {n : Numeral} {t : Token}

theorem ofPiece_reads (mode : Mode) (hn : n.chars ≠ []) (hreads : n.Reads) (pos : Nat) :
    ∃ color, ofPiece .standard mode ⟨.number, n.chars⟩ pos
      = .ok ⟨.number, String.ofList n.chars, pos, n.literal, color, true, Kind.unnamed rfl⟩ := by
  obtain ⟨color, hmake⟩ := make_standard .number (String.ofList n.chars) pos n.literal (Kind.unnamed rfl)
  have hvalue := n.numberValue?_chars hn
  rw [if_pos hreads] at hvalue
  refine ⟨color, ?_⟩
  rw [ofPiece]
  simp only [hvalue]
  exact hmake

theorem ofPiece_unreadable (hn : n.chars ≠ []) (hreads : ¬ n.Reads)
    (hopens : n.chars.head?.any Shape.opensNumber = true)
    (h : ofPiece .standard .tolerant ⟨.number, n.chars⟩ t.pos = .ok t) :
    t.isSpoilt = true ∧ t.kind = .unknown ∧ t.complaint = .unreadableNumber t.text t.stop := by
  obtain ⟨color, hmake⟩ := make_standard .unknown (String.ofList n.chars) t.pos .null (Kind.unnamed rfl)
  obtain ⟨-, htext⟩ := ofPiece_place h
  have hvalue := n.numberValue?_chars hn
  rw [if_neg hreads] at hvalue
  rw [ofPiece] at h
  simp only [hvalue, reject, hmake] at h
  injection h with h
  have hkind : t.kind = .unknown := by rw [← h]
  have hchars : t.text.toList = n.chars := by rw [htext, String.toList_ofList]
  have hstring : t.opensString = false := by
    rw [opensString, hchars]
    exact Shape.any_isDelimiter hopens
  refine ⟨?_, hkind, ?_⟩
  · rw [isSpoilt, hkind, hchars, hopens, Bool.or_true]
    rfl
  · rw [complaint, hstring]
    rfl

end

end Token

/-- **A number token takes the longest numeral at its place.**  It is spoilt exactly if there is no digit in
front of the exponent, or no digit in the exponent; else it has the value of the numeral. -/
theorem tokenize_numbers (source : String) :
    ∃ tokens, tokenize .tolerant source = .ok tokens ∧
      tokenize .strict source = Token.verdict tokens ∧
      ∀ t ∈ tokens, ∀ c, Shape.opensNumber c = true → source.toList[t.pos]? = some c →
        ∃ n : Numeral, t.text.toList = n.chars ∧ n.chars <+: source.toList.drop t.pos ∧
          (∀ m : Numeral, m.chars <+: source.toList.drop t.pos → m.chars.length ≤ n.chars.length) ∧
          (n.Reads → t.isSpoilt = false ∧ t.kind = .number ∧ t.value = n.literal) ∧
          (¬ n.Reads → t.isSpoilt = true ∧ t.kind = .unknown ∧
            t.complaint = .unreadableNumber t.text t.stop) := by
  obtain ⟨tokens, htolerant, hstrict⟩ := tokenize_verdict source
  refine ⟨tokens, htolerant, hstrict, fun t ht c hopens hopening => ?_⟩
  obtain ⟨left, hleft, -, hpiece⟩ := ofPiece_of_tokenize htolerant ht
  rw [← List.head?_drop, hleft] at hopening
  obtain ⟨cs, rfl⟩ := List.head?_eq_some_iff.1 hopening
  have hprefix := Numeral.startOf_isPrefix (c :: cs)
  rw [Shape.first_number hopens, ← List.prefix_iff_eq_take.1 hprefix] at hpiece
  obtain ⟨-, htext⟩ := Token.ofPiece_place hpiece
  have hhead := Numeral.head_startOf hopens cs
  have hne : (Numeral.startOf (c :: cs)).chars ≠ [] := by
    intro hnil
    rw [hnil] at hhead
    cases hhead
  have hany : (Numeral.startOf (c :: cs)).chars.head?.any Shape.opensNumber = true := by
    rw [hhead]
    exact hopens
  rw [hleft]
  refine ⟨Numeral.startOf (c :: cs), by rw [htext, String.toList_ofList], hprefix,
    fun m hm => Numeral.length_le_startOf hm, fun hreads => ?_, fun hreads => ?_⟩
  · obtain ⟨color, hmade⟩ := Token.ofPiece_reads .tolerant hne hreads t.pos
    rw [← Except.ok.inj (hmade.symm.trans hpiece)]
    exact ⟨rfl, rfl, rfl⟩
  · exact Token.ofPiece_unreadable hne hreads hany hpiece

-- a point without digits, and an exponent without digits in front of it or in it, are no numbers
example : ((tokenize .tolerant "1.e3 .e5 2e 007 .").toOption.getD []).map (fun t => (t.kind, t.text))
    = [(.number, "1.e3"), (.whitespace, " "), (.unknown, ".e5"), (.whitespace, " "), (.unknown, "2e"),
      (.whitespace, " "), (.number, "007"), (.whitespace, " "), (.unknown, ".")] := by decide

/-! ### Too many digits -/

/-- **A numeral that reads is one strict token.** -/
theorem tokenize_chars (n : Numeral) (hopens : n.chars.head?.any Shape.opensNumber = true)
    (hreads : n.Reads) : ∃ color, tokenize .strict (String.ofList n.chars)
      = .ok [⟨.number, String.ofList n.chars, 0, n.literal, color, true, Kind.unnamed rfl⟩] := by
  have hne : n.chars ≠ [] := by
    intro hnil
    rw [hnil] at hopens
    cases hopens
  have hfirst : Shape.first (n.chars ++ []) = (.number, n.chars.length) :=
    Shape.first_chars n hopens rfl
  have hcut := cut_of_first hne hfirst
  obtain ⟨color, hmade⟩ := Token.ofPiece_reads .strict hne hreads 0
  refine ⟨color, ?_⟩
  rw [tokenize, tokenizeWith, String.toList_ofList]
  rw [List.append_nil] at hcut
  rw [hcut]
  exact Token.ofPieces_cons_ok.2 ⟨_, [], hmade, rfl, rfl⟩

/-- A row of zeros. -/
def Numeral.zeros (n : Nat) : Numeral where
  whole := List.replicate n '0'
  fraction := none
  exponent := none
  whole_digits c hc := by
    rw [List.eq_of_mem_replicate hc]
    rfl
  fraction_digits ds hds := by cases hds
  exponent_digits e he := by cases he
  exponent_mark e he := by cases he

theorem Numeral.valueOf_zeros (n : Nat) : valueOf (zeros n).whole = 0 := by
  rw [valueOf, zeros, List.reverse_replicate, List.map_replicate]
  induction n with
  | zero => rfl
  | succ n ih => rw [List.replicate_succ, Nat.ofDigits_cons, ih]; rfl

theorem Numeral.zeros_literal {n : Nat} (hn : Literal.maxIntDigits < n) :
    (zeros n).literal = .float 0.0 := by
  have hlong : ¬ (zeros n).whole.length ≤ Literal.maxIntDigits := by
    rw [zeros, List.length_replicate]
    exact Nat.not_le_of_lt hn
  have hmantissa : (zeros n).mantissa = (zeros n).whole := List.append_nil _
  rw [literal, if_neg fun h => hlong h.2.1, double, hmantissa, valueOf_zeros]
  rfl

/-- **Where the digits are too many, even zero is a double.** -/
theorem tokenize_zeros : Numeral.valueOf (Numeral.zeros 4301).chars = 0 ∧
    ∃ color, tokenize .strict (String.ofList (Numeral.zeros 4301).chars)
      = .ok [⟨.number, String.ofList (Numeral.zeros 4301).chars, 0, .float 0.0, color, true,
          Kind.unnamed rfl⟩] := by
  have hchars : (Numeral.zeros 4301).chars = (Numeral.zeros 4301).whole := List.append_nil _
  have hreads : (Numeral.zeros 4301).Reads := ⟨List.cons_ne_nil _ _, fun e he => by cases he⟩
  obtain ⟨color, htokens⟩ := tokenize_chars (Numeral.zeros 4301) rfl hreads
  rw [Numeral.zeros_literal (by decide)] at htokens
  refine ⟨?_, color, htokens⟩
  rw [hchars]
  exact Numeral.valueOf_zeros 4301

end Klex
