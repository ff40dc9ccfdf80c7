import Klex.Token.Shape

/-!
# Patterns of text

The shapes of text are regular expressions, tried in a fixed order at the start of what is left of the
text.  An expression can match in several ways, and the order in which its ways are tried decides which
one counts: a repetition is greedy or lazy, and the first alternative comes before the second.

* **`Pattern`** — regular expressions, with looks at the next character.
* **`Pattern.rests`** — **all matches at the start of a text, in the order of preference**, each given by
  what it leaves of the text; **`Pattern.lead`** is the preferred one.
* **`Shape.pattern`** — the expression of each shape.
* **`Shape.lead_pattern`** — **the length that a shape is measured by is that of the preferred match.**
* **`Shape.first_eq_iff`** — what is cut off has the first shape that fits.
* **`Cuts`** — a text is cut off piece by piece, each time by the first shape in order that matches;
  **`cuts_iff`** says that `cut` does this and that there is no other way.
-/

namespace Klex

/-- A regular expression. -/
inductive Pattern where
  /-- One character of a class. -/
  | char (p : Char → Bool)
  /-- A fixed text. -/
  | word (text : String)
  /-- Nothing, in front of a character of a class. -/
  | ahead (p : Char → Bool)
  /-- Nothing, unless in front of a character of a class. -/
  | notAhead (p : Char → Bool)
  /-- One after the other. -/
  | seq (first second : Pattern)
  /-- The first, or else the second. -/
  | either (first second : Pattern)
  /-- Any number of times, rather more often than less. -/
  | greedy (body : Pattern)
  /-- Any number of times, rather less often than more. -/
  | lazy (body : Pattern)

namespace Pattern

/-- What is left after at most `n` matches in a row, more of them first. -/
def greedily (rests : List Char → List (List Char)) : Nat → List Char → List (List Char)
  | 0, cs => [cs]
  | n + 1, cs => (rests cs).flatMap (greedily rests n) ++ [cs]

/-- What is left after at most `n` matches in a row, fewer of them first. -/
def lazily (rests : List Char → List (List Char)) : Nat → List Char → List (List Char)
  | 0, cs => [cs]
  | n + 1, cs => cs :: (rests cs).flatMap (lazily rests n)

/-- What each match at the start of a text leaves of it, in the order of preference.  What is repeated
takes at least one character each time, so the length of the text bounds the number of times. -/
def rests : Pattern → List Char → List (List Char)
  | char p, c :: cs => if p c then [cs] else []
  | char _, [] => []
  | word text, cs => if text.toList.isPrefixOf cs then [cs.drop text.toList.length] else []
  | ahead p, cs => if cs.head?.any p then [cs] else []
  | notAhead p, cs => if cs.head?.any p then [] else [cs]
  | seq first second, cs => (first.rests cs).flatMap second.rests
  | either first second, cs => first.rests cs ++ second.rests cs
  | greedy body, cs => greedily body.rests cs.length cs
  | lazy body, cs => lazily body.rests cs.length cs

-- nearly every proof below goes by these equations
attribute [local simp] greedily lazily rests

/-- What the preferred match leaves. -/
def lead (p : Pattern) (cs : List Char) : Option (List Char) := (p.rests cs).head?

/-- The pattern or nothing. -/
def optional (p : Pattern) : Pattern := either p (word "")

/-- The first of some fixed texts, or else another pattern. -/
def words : List String → Pattern → Pattern
  | [], last => last
  | text :: more, last => either (word text) (words more last)

/-! ### Preferred matches of composed patterns -/

section

variable {p q : Pattern} {cs : List Char}

theorem lead_char (P : Char → Bool) (c : Char) (cs : List Char) :
    (char P).lead (c :: cs) = if P c then some cs else none := by
  rw [lead, rests]
  split <;> rfl

theorem lead_word (text : String) (cs : List Char) :
    (word text).lead cs = (Shape.word? text cs).map (cs.drop ·) := by
  rw [lead, rests, Shape.word?, String.length_toList]
  split <;> rfl

theorem lead_either : (either p q).lead cs = (p.lead cs).or (q.lead cs) := by
  rw [lead, rests, List.head?_append]
  rfl

theorem lead_optional : p.optional.lead cs = some ((p.lead cs).getD cs) := by
  rw [optional, lead_either, lead_word]
  cases p.lead cs <;> rfl

/-- Where each part goes on from the preferred match before it, there is no need to come back. -/
theorem lead_seq {rest : List Char} (hp : p.lead cs = some rest) (hq : (q.lead rest).isSome = true) :
    (seq p q).lead cs = q.lead rest := by
  obtain ⟨last, hlast⟩ := Option.isSome_iff_exists.1 hq
  obtain ⟨others, hrests⟩ := List.head?_eq_some_iff.1 hp
  rw [lead, rests, hrests, List.flatMap_cons, List.head?_append]
  rw [lead] at hlast ⊢
  rw [hlast, Option.some_or]

/-- After one character there is one way to go on. -/
theorem lead_char_seq (P : Char → Bool) (c : Char) (cs : List Char) :
    (seq (char P) q).lead (c :: cs) = if P c then q.lead cs else none := by
  rw [lead, rests, rests]
  by_cases hc : P c = true
  · rw [if_pos hc, if_pos hc, List.flatMap_singleton]
    rfl
  · rw [if_neg hc, if_neg hc]
    rfl

theorem lead_word_seq (text : String) (cs : List Char) :
    (seq (word text) q).lead cs = (Shape.word? text cs).bind fun n => q.lead (cs.drop n) := by
  rw [lead, rests, rests, Shape.word?, String.length_toList]
  by_cases htext : text.toList.isPrefixOf cs = true
  · rw [if_pos htext, if_pos htext, List.flatMap_singleton]
    rfl
  · rw [if_neg htext, if_neg htext]
    rfl

theorem lead_ahead_seq (P : Char → Bool) (cs : List Char) :
    (seq (ahead P) q).lead cs = if cs.head?.any P then q.lead cs else none := by
  rw [lead, rests, rests]
  by_cases hc : cs.head?.any P = true
  · rw [if_pos hc, if_pos hc, List.flatMap_singleton]
    rfl
  · rw [if_neg hc, if_neg hc]
    rfl

/-- Of fixed texts the first that fits is taken. -/
theorem lead_words (texts : List String) (last : Pattern) (cs : List Char) :
    (words texts last).lead cs
      = ((texts.findSome? (Shape.word? · cs)).map (cs.drop ·)).or (last.lead cs) := by
  induction texts with
  | nil => rfl
  | cons text texts ih =>
    rw [words, lead_either, lead_word, ih, List.findSome?_cons]
    cases Shape.word? text cs <;> rfl

/-- A greedy run of characters goes as far as the class does. -/
theorem head?_greedily_char (P : Char → Bool) {n : Nat} {cs : List Char} (hn : cs.length ≤ n) :
    (greedily (char P).rests n cs).head? = some (cs.drop (cs.takeWhile P).length) := by
  induction n generalizing cs with
  | zero =>
    rw [List.eq_nil_of_length_eq_zero (Nat.le_zero.1 hn)]
    rfl
  | succ n ih =>
    cases cs with
    | nil => rfl
    | cons c cs =>
      rw [greedily, rests, List.head?_append]
      by_cases hc : P c = true
      · have hrest := @ih cs (Nat.le_of_succ_le_succ hn)
        rw [if_pos hc, List.flatMap_singleton, hrest, List.takeWhile_cons_of_pos hc]
        rfl
      · rw [if_neg hc, List.takeWhile_cons_of_neg hc]
        rfl

theorem lead_greedy_char (P : Char → Bool) (cs : List Char) :
    (greedy (char P)).lead cs = some (cs.drop (cs.takeWhile P).length) := by
  rw [lead, rests]
  exact head?_greedily_char P (Nat.le_refl _)

end

end Pattern

/-! ### The patterns of the shapes -/

namespace Shape

open Pattern

/-- One character, whichever. -/
def anyChar : Pattern := .char fun _ => true

/-- Any number of digits. -/
def digits : Pattern := .greedy (.char Char.isDigit)

/-- One item in the body of a string: an escaped backslash, an escaped delimiter, a backslash before
anything else, or any other character. -/
def stringItem (delimiter : Char) : Pattern :=
  .either (.word "\\\\") <| .either (.word (String.ofList ['\\', delimiter])) <|
    .either (.seq (.word "\\") (.notAhead fun c => c == '\\' || c == delimiter))
      (.char fun c => c != delimiter && c != '\\')

/-- A string between two delimiters of one sort. -/
def quotedBy (delimiter : Char) : Pattern :=
  .seq (.char (· == delimiter)) <| .seq (.greedy (stringItem delimiter)) (.char (· == delimiter))

/-- The symbols of one character. -/
def symbolChars : List Char := "-+*/()\x7b\x7d,!=<>".toList

/-- The regular expression of a shape. -/
def pattern : Shape → Pattern
  | whitespace => .seq (.char isSpace) (.greedy (.char isSpace))
  | comment =>
    .either (.seq (.word "//") (.greedy (.char (· != '\n'))))
      (.seq (.word "/*") (.seq (.lazy anyChar) (.word "*/")))
  | openComment => .seq (.word "/*") (.greedy anyChar)
  | boolean => .either (.word "true") (.word "false")
  | null => .word "null"
  | identifier => .seq (.char Char.isAlpha) (.greedy (.char Char.isAlphanum))
  | string => .either (quotedBy '"') (.either (quotedBy '\'') (quotedBy '\x60'))
  | openString => .seq (.char isDelimiter) (.greedy anyChar)
  | number =>
    .seq (.ahead fun c => c.isDigit || c == '.') <| .seq digits <|
      .seq (Pattern.optional (.char (· == '.'))) <| .seq digits <|
        Pattern.optional (.seq (.char fun c => c == 'e' || c == 'E') digits)
  | symbol => Pattern.words ["||", "&&", "==", "<=", ">="] (.char symbolChars.contains)
  | unknown => anyChar

/-! ### Scanners find preferred matches -/

theorem lead_greedy_anyChar (cs : List Char) : (Pattern.greedy anyChar).lead cs = some [] := by
  have hall : cs.takeWhile (fun _ => true) = cs := by
    induction cs with
    | nil => rfl
    | cons c cs ih => rw [List.takeWhile_cons_of_pos rfl, ih]
  rw [anyChar, lead_greedy_char, hall, List.drop_length]

theorem lead_whitespace (cs : List Char) :
    (pattern whitespace).lead cs = (run? isSpace cs).map (cs.drop ·) := by
  cases cs with
  | nil => rfl
  | cons c cs =>
    rw [pattern, lead_char_seq, lead_greedy_char, run?]
    by_cases hc : isSpace c = true
    · rw [if_pos hc, List.takeWhile_cons_of_pos hc]
      rfl
    · rw [if_neg hc, List.takeWhile_cons_of_neg hc]
      rfl

/-- A text of another form does not start with the word. -/
theorem word?_eq_none {text : String} {cs : List Char} (h : ∀ rest, cs ≠ text.toList ++ rest) :
    word? text cs = none := by
  rw [word?, if_neg]
  intro htext
  obtain ⟨rest, hrest⟩ := List.isPrefixOf_iff_prefix.1 htext
  exact h rest hrest.symm

/-- The first end of a comment is the one that a lazy run comes to. -/
theorem head?_lazily_commentEnd {n : Nat} {cs : List Char} (hn : cs.length ≤ n) :
    ((lazily anyChar.rests n cs).flatMap (Pattern.word "*/").rests).head?
      = (commentEnd? cs).map (cs.drop ·) := by
  fun_induction commentEnd? cs generalizing n with
  | case1 => cases n <;> rfl
  | case2 rest => cases n <;> rfl
  | case3 c cs hend ih =>
    cases n with
    | zero => exact absurd hn (by simp)
    | succ n =>
      have hnone : word? "*/" (c :: cs) = none := by
        refine word?_eq_none fun rest h => ?_
        obtain ⟨rfl, rfl⟩ := List.cons.inj h
        exact hend rest rfl rfl
      rw [lazily, anyChar, rests, if_pos rfl, List.flatMap_singleton, List.flatMap_cons,
        List.head?_append, ← anyChar, ih (Nat.le_of_succ_le_succ hn), ← lead, lead_word, hnone]
      rw [Option.map_none, Option.none_or, Option.map_map]
      rfl

theorem lead_comment (cs : List Char) :
    (pattern comment).lead cs = (comment? cs).map (cs.drop ·) := by
  rw [pattern, lead_either, lead_word_seq, lead_word_seq]
  fun_cases comment? cs with
  | case1 rest =>
    rw [show word? "//" ('/' :: '/' :: rest) = some 2 from rfl, Option.bind_some, lead_greedy_char]
    rw [Option.some_or, Option.map_some, Nat.add_comm]
    rfl
  | case2 rest =>
    have hblock := head?_lazily_commentEnd (Nat.le_refl rest.length)
    rw [show word? "//" ('/' :: '*' :: rest) = none from rfl, Option.bind_none, Option.none_or]
    rw [show word? "/*" ('/' :: '*' :: rest) = some 2 from rfl, Option.bind_some, lead, rests, rests]
    refine hblock.trans ?_
    rw [Option.map_map]
    refine Option.map_congr fun n _ => ?_
    rw [Function.comp, Nat.add_comm]
    rfl
  | case3 _ hline hblock =>
    rw [word?_eq_none fun rest h => hline rest h, word?_eq_none fun rest h => hblock rest h]
    rfl

theorem lead_openComment (cs : List Char) :
    (pattern openComment).lead cs = (openComment? cs).map (cs.drop ·) := by
  rw [pattern, lead_word_seq]
  fun_cases openComment? cs with
  | case1 rest =>
    rw [show word? "/*" ('/' :: '*' :: rest) = some 2 from rfl, Option.bind_some, lead_greedy_anyChar]
    rw [Option.map_some, Nat.add_comm]
    exact congrArg some (List.drop_length (l := rest)).symm
  | case2 _ hblock =>
    rw [word?_eq_none fun rest h => hblock rest h]
    rfl

theorem lead_identifier (cs : List Char) :
    (pattern identifier).lead cs = (identifier? cs).map (cs.drop ·) := by
  cases cs with
  | nil => rfl
  | cons c cs =>
    rw [pattern, lead_char_seq, lead_greedy_char, identifier?]
    split
    · rw [Option.map_some, Nat.add_comm]
      rfl
    · rfl

theorem lead_openString (cs : List Char) :
    (pattern openString).lead cs = (openString? cs).map (cs.drop ·) := by
  cases cs with
  | nil => rfl
  | cons d cs =>
    rw [pattern, lead_char_seq, lead_greedy_anyChar, openString?]
    split
    · rw [Option.map_some, Nat.add_comm]
      exact congrArg some (List.drop_length (l := cs)).symm
    · rfl

/-! ### Strings -/

section

variable {d : Char}

/-- Of the alternatives for an item that starts with a backslash exactly one applies. -/
theorem rests_stringItem_escape (hd : d ≠ '\\') (c : Char) (cs : List Char) :
    (stringItem d).rests ('\\' :: c :: cs)
      = [if c = '\\' || c = d then cs else c :: cs] := by
  by_cases hb : c = '\\'
  · simp [stringItem, rests, hb, hd]
  · by_cases hc : c = d
    · simp [stringItem, rests, hc, Ne.symm hd]
    · simp [stringItem, rests, hc, hb, Ne.symm hb, Ne.symm hc]

theorem rests_stringItem_backslash : (stringItem d).rests ['\\'] = [[]] := by
  simp [stringItem, rests]

theorem rests_stringItem_plain {c : Char} (hc : c ≠ '\\') (cs : List Char) :
    (stringItem d).rests (c :: cs) = if c = d then [] else [cs] := by
  simp [stringItem, rests, hc.symm, hc]

/-- Where one item fits and the string does not end, the search goes on behind the item. -/
theorem head?_greedily_item {n : Nat} {c : Char} {cs rest : List Char} (hc : c ≠ d)
    (hitem : (stringItem d).rests (c :: cs) = [rest]) :
    ((greedily (stringItem d).rests (n + 1) (c :: cs)).flatMap (Pattern.char (· == d)).rests).head?
      = ((greedily (stringItem d).rests n rest).flatMap (Pattern.char (· == d)).rests).head? := by
  have hopen : (Pattern.char (· == d)).rests (c :: cs) = [] := by
    rw [rests, if_neg (by simpa using hc)]
  rw [greedily, hitem, List.flatMap_singleton, List.flatMap_append, List.flatMap_singleton, hopen,
    List.append_nil]

/-- The preferred match of the rest of a string ends where the scanner stops. -/
theorem head?_greedily_stringEnd (hd : d ≠ '\\') {n : Nat} {cs : List Char} (hn : cs.length ≤ n) :
    ((greedily (stringItem d).rests n cs).flatMap (Pattern.char (· == d)).rests).head?
      = (stringEnd? d cs).map (cs.drop ·) := by
  fun_induction stringEnd? d cs generalizing n with
  | case1 =>
    cases n with
    | zero => rfl
    | succ n =>
      rw [greedily, show (stringItem d).rests [] = [] from by simp [stringItem, rests]]
      rfl
  | case2 c cs hescaped ih =>
    cases n with
    | zero => exact absurd hn (by simp)
    | succ n =>
      have hitem := rests_stringItem_escape hd c cs
      rw [if_pos hescaped] at hitem
      have hlength : cs.length ≤ n := by
        simp only [List.length_cons] at hn
        omega
      rw [head?_greedily_item (Ne.symm hd) hitem, ih hlength, Option.map_map]
      rfl
  | case3 c cs hescaped ih =>
    cases n with
    | zero => exact absurd hn (by simp)
    | succ n =>
      have hitem := rests_stringItem_escape hd c cs
      rw [if_neg hescaped] at hitem
      rw [head?_greedily_item (Ne.symm hd) hitem, ih (Nat.le_of_succ_le_succ hn), Option.map_map]
      rfl
  | case4 cs hother =>
    cases n with
    | zero => exact absurd hn (by simp)
    | succ n =>
      rw [greedily, rests_stringItem_plain hd, if_pos rfl]
      rw [show [].flatMap (greedily (stringItem d).rests n) = [] from rfl, List.nil_append,
        List.flatMap_singleton, rests, if_pos (by simp)]
      rfl
  | case5 c cs hother hc ih =>
    cases n with
    | zero => exact absurd hn (by simp)
    | succ n =>
      have hitem : (stringItem d).rests (c :: cs) = [cs] := by
        by_cases hb : c = '\\'
        · subst hb
          cases cs with
          | nil => exact rests_stringItem_backslash
          | cons c' cs => exact (hother c' cs rfl rfl).elim
        · rw [rests_stringItem_plain hb, if_neg hc]
      rw [head?_greedily_item hc hitem, ih (Nat.le_of_succ_le_succ hn), Option.map_map]
      rfl

theorem lead_quotedBy (hd : d ≠ '\\') (c : Char) (cs : List Char) :
    (quotedBy d).lead (c :: cs)
      = if c == d then (stringEnd? d cs).map (cs.drop ·) else none := by
  rw [quotedBy, lead_char_seq, lead, rests, rests,
    head?_greedily_stringEnd hd (Nat.le_refl cs.length)]

end

theorem lead_string (cs : List Char) :
    (pattern string).lead cs = (string? cs).map (cs.drop ·) := by
  cases cs with
  | nil => rfl
  | cons c cs =>
    rw [pattern, lead_either, lead_either, lead_quotedBy (by decide), lead_quotedBy (by decide),
      lead_quotedBy (by decide), string?, isDelimiter]
    have hstep : ((stringEnd? c cs).map (1 + ·)).map ((c :: cs).drop ·)
        = (stringEnd? c cs).map (cs.drop ·) := by
      rw [Option.map_map]
      refine Option.map_congr fun n _ => ?_
      rw [Function.comp, Nat.add_comm]
      rfl
    by_cases hdouble : c = '"'
    · subst hdouble
      exact (Option.or_none).trans hstep.symm
    · by_cases hsingle : c = '\''
      · subst hsingle
        exact (Option.or_none).trans hstep.symm
      · by_cases hback : c = '\x60'
        · subst hback
          exact hstep.symm
        · simp [hdouble, hsingle, hback]

/-! ### Numbers and symbols -/

theorem lead_digits (cs : List Char) :
    digits.lead cs = some (cs.drop (cs.takeWhile Char.isDigit).length) :=
  lead_greedy_char _ _

theorem lead_point (cs : List Char) :
    (Pattern.optional (.char (· == '.'))).lead cs = some (cs.drop (pointLength cs)) := by
  rw [lead_optional]
  fun_cases pointLength cs with
  | case1 cs => rfl
  | case2 _ hpoint =>
    cases cs with
    | nil => rfl
    | cons c cs =>
      rw [lead_char, if_neg]
      · rfl
      · intro hc
        exact hpoint cs (by rw [eq_of_beq hc])

theorem lead_exponent (cs : List Char) :
    (Pattern.optional (.seq (.char fun c => c == 'e' || c == 'E') digits)).lead cs
      = some (cs.drop (exponentLength cs)) := by
  rw [lead_optional]
  cases cs with
  | nil => rfl
  | cons c cs =>
    rw [lead_char_seq, lead_digits, exponentLength]
    by_cases hc : (c == 'e' || c == 'E') = true
    · rw [if_pos hc, if_pos (by simpa using hc), Nat.add_comm]
      rfl
    · rw [if_neg hc, if_neg (by simpa using hc)]
      rfl

/-- Every part of a number matches at least nothing, so each goes on where the one before it ends. -/
theorem lead_number (cs : List Char) :
    (pattern number).lead cs = (number? cs).map (cs.drop ·) := by
  cases cs with
  | nil => rfl
  | cons c cs =>
    rw [pattern, number?]
    have hfraction : ∀ cs, (Pattern.seq digits
        (Pattern.optional (.seq (.char fun c => c == 'e' || c == 'E') digits))).lead cs
          = some ((cs.drop (cs.takeWhile Char.isDigit).length).drop
            (exponentLength (cs.drop (cs.takeWhile Char.isDigit).length))) := by
      intro cs
      rw [lead_seq (lead_digits cs) (by rw [lead_exponent]; rfl), lead_exponent]
    by_cases hc : (c.isDigit || c == '.') = true
    · rw [lead_ahead_seq, if_pos (by simpa using hc), if_pos (by simpa using hc)]
      rw [lead_seq (lead_digits _), lead_seq (lead_point _), hfraction]
      · simp only [Option.map_some, List.drop_drop]
      · rw [hfraction]
        rfl
      · rw [lead_seq (lead_point _)]
        all_goals rw [hfraction]; rfl
    · rw [lead_ahead_seq, if_neg (by simpa using hc), if_neg (by simpa using hc)]
      rfl

/-- A class of characters is a choice between texts of one character. -/
theorem lead_class (chars cs : List Char) :
    (Pattern.char chars.contains).lead cs
      = ((chars.map String.singleton).findSome? (word? · cs)).map (cs.drop ·) := by
  induction chars with
  | nil => cases cs <;> rfl
  | cons c chars ih =>
    rw [List.map_cons, List.findSome?_cons]
    cases cs with
    | nil =>
      rw [show word? (String.singleton c) [] = none from by simp [word?]]
      exact ih
    | cons x xs =>
      rw [lead_char] at ih ⊢
      rw [List.contains_cons]
      by_cases hx : x = c
      · subst hx
        simp [word?]
      · rw [show word? (String.singleton c) (x :: xs) = none from by simp [word?, Ne.symm hx]]
        rw [show (x == c) = false from beq_false_of_ne hx, Bool.false_or]
        exact ih

theorem lead_symbol (cs : List Char) :
    (pattern symbol).lead cs = (symbols.findSome? (word? · cs)).map (cs.drop ·) := by
  have hsymbols : symbols = ["||", "&&", "==", "<=", ">="] ++ symbolChars.map String.singleton := by
    decide
  rw [pattern, lead_words, lead_class, hsymbols, List.findSome?_append]
  cases List.findSome? (word? · cs) ["||", "&&", "==", "<=", ">="] <;> rfl

/-- **The length that a shape is measured by is that of the preferred match of its pattern.** -/
theorem lead_pattern (shape : Shape) (cs : List Char) :
    shape.pattern.lead cs = (shape.measure cs).map (cs.drop ·) := by
  cases shape with
  | whitespace => exact lead_whitespace cs
  | comment => exact lead_comment cs
  | openComment => exact lead_openComment cs
  | boolean =>
    rw [pattern, lead_either, lead_word, lead_word, measure]
    cases word? "true" cs <;> rfl
  | null => exact lead_word "null" cs
  | identifier => exact lead_identifier cs
  | string => exact lead_string cs
  | openString => exact lead_openString cs
  | number => exact lead_number cs
  | symbol => exact lead_symbol cs
  | unknown => cases cs <;> rfl

-- a comment stops at the first place that closes it
example : (pattern .comment).lead "/* a */ b */".toList = some " b */".toList := by decide

/-! ### Runs of characters -/

section

variable {p : Char → Bool} {run rest : List Char}

/-- A run of characters of a class ends in front of what is not of the class. -/
theorem takeWhile_run (hrun : ∀ c ∈ run, p c = true) (hrest : rest.head?.any p = false) :
    (run ++ rest).takeWhile p = run := by
  rw [List.takeWhile_append_of_pos hrun]
  cases rest with
  | nil => exact List.append_nil run
  | cons c cs => rw [List.takeWhile_cons_of_neg (by simpa using hrest), List.append_nil]

theorem dropWhile_run (hrun : ∀ c ∈ run, p c = true) (hrest : rest.head?.any p = false) :
    (run ++ rest).dropWhile p = rest := by
  rw [List.dropWhile_append_of_pos hrun]
  cases rest with
  | nil => rfl
  | cons c cs => rw [List.dropWhile_cons_of_neg (by simpa using hrest)]

/-- What is as long as the run is the run. -/
theorem run_of_length (h : ((run ++ rest).takeWhile p).length = run.length) :
    (∀ c ∈ run, p c = true) ∧ rest.head?.any p = false := by
  have hprefix := List.takeWhile_prefix (l := run ++ rest) p
  have hrun : (run ++ rest).takeWhile p = run := by
    rw [List.prefix_iff_eq_take.1 hprefix, h, List.take_left]
  have hall : ∀ c ∈ run, p c = true := List.all_eq_true.1 (hrun ▸ List.all_takeWhile)
  rw [List.takeWhile_append_of_pos hall] at hrun
  have hnone : rest.takeWhile p = [] := List.append_cancel_left (hrun.trans (List.append_nil run).symm)
  refine ⟨hall, ?_⟩
  cases rest with
  | nil => rfl
  | cons c cs =>
    rw [List.takeWhile_cons] at hnone
    simpa using hnone

end

/-! ### The ordered choice -/

/-- The first shape in order whose pattern matches at the start of a text, with what it leaves. -/
def choose (cs : List Char) : Option (Shape × List Char) :=
  order.findSome? fun shape => (shape.pattern.lead cs).map (shape, ·)

/-- The last shape takes any one character, so on a text that is not empty some shape fits. -/
theorem findSome?_order {cs : List Char} (hcs : cs ≠ []) :
    (order.findSome? fun shape => (shape.measure cs).map (shape, ·)) = some (first cs) := by
  obtain ⟨c, cs, rfl⟩ := List.exists_cons_of_ne_nil hcs
  have hsome : (order.findSome? fun shape => (shape.measure (c :: cs)).map (shape, ·)).isSome
      = true := List.findSome?_isSome_iff.2 ⟨unknown, by decide, rfl⟩
  obtain ⟨found, hfound⟩ := Option.isSome_iff_exists.1 hsome
  rw [first, hfound]
  rfl

/-- The shapes that are tried before a shape. -/
def earlier (shape : Shape) : List Shape := order.takeWhile (· != shape)

theorem order_eq (shape : Shape) :
    order = earlier shape ++ shape :: order.drop ((earlier shape).length + 1) := by
  cases shape <;> rfl

/-- **What is cut off has the first shape that fits.** -/
theorem first_eq_iff {cs : List Char} (hcs : cs ≠ []) {shape : Shape} {n : Nat} :
    first cs = (shape, n) ↔
      shape.measure cs = some n ∧ ∀ other ∈ earlier shape, other.measure cs = none := by
  constructor
  · intro hfirst
    have hfind := findSome?_order hcs
    rw [hfirst] at hfind
    obtain ⟨before, found, after, horder, hfound, hbefore⟩ := List.findSome?_eq_some_iff.1 hfind
    obtain ⟨size, hsize, heq⟩ := Option.map_eq_some_iff.1 hfound
    obtain ⟨rfl, rfl⟩ := Prod.mk.inj heq
    have hnone : ∀ other ∈ before, other.measure cs = none :=
      fun other hother => Option.map_eq_none_iff.1 (hbefore other hother)
    have hother : ∀ other ∈ before, (other != found) = true := by
      intro other hmem
      rw [bne_iff_ne]
      rintro rfl
      rw [hnone other hmem] at hsize
      cases hsize
    have hearlier : earlier found = before := by
      rw [earlier, horder, List.takeWhile_append_of_pos hother, List.takeWhile_cons_of_neg (by simp),
        List.append_nil]
    rw [hearlier]
    exact ⟨hsize, hnone⟩
  · rintro ⟨hfits, hearlier⟩
    have hfind : order.findSome? (fun shape => (shape.measure cs).map (shape, ·)) = some (shape, n) := by
      refine List.findSome?_eq_some_iff.2 ⟨_, shape, _, order_eq shape, ?_, fun other hother => ?_⟩
      · rw [hfits]
        rfl
      · rw [hearlier other hother]
        rfl
    rw [findSome?_order hcs] at hfind
    exact Option.some.inj hfind

/-- The first shape that fits does fit. -/
theorem measure_first {cs : List Char} (hcs : cs ≠ []) :
    (first cs).1.measure cs = some (first cs).2 :=
  ((first_eq_iff hcs).1 rfl).1

theorem choose_eq {cs : List Char} (hcs : cs ≠ []) :
    choose cs = some ((first cs).1, cs.drop (first cs).2) := by
  have hmatches : choose cs
      = (order.findSome? fun shape => (shape.measure cs).map (shape, ·)).map
          fun found => (found.1, cs.drop found.2) := by
    rw [choose, List.map_findSome?]
    refine congrArg (order.findSome? ·) (funext fun shape => ?_)
    rw [lead_pattern, Function.comp, Option.map_map, Option.map_map]
    rfl
  rw [hmatches, findSome?_order hcs]
  rfl

end Shape

/-- A text in pieces: each is what the first shape that matches takes off the text. -/
inductive Cuts : List Char → List Piece → Prop
  | nil : Cuts [] []
  | cons {shape : Shape} {chars rest : List Char} {pieces : List Piece}
      (first : Shape.choose (chars ++ rest) = some (shape, rest)) (others : Cuts rest pieces) :
      Cuts (chars ++ rest) (⟨shape, chars⟩ :: pieces)

theorem cutAtMost_eq_cut {n : Nat} {cs : List Char} (hn : cs.length ≤ n) :
    cutAtMost n cs = cut cs := by
  suffices h : ∀ m ≤ n, cs.length ≤ m → cutAtMost n cs = cutAtMost m cs from
    h cs.length hn (Nat.le_refl _)
  induction n generalizing cs with
  | zero =>
    intro m hm _
    rw [Nat.le_zero.1 hm]
  | succ n ih =>
    intro m hm hlength
    cases cs with
    | nil => cases m <;> simp [cutAtMost]
    | cons c cs =>
      cases m with
      | zero => exact absurd hlength (by simp)
      | succ m =>
        have hpos := Shape.first_pos (c :: cs)
        have hrest : ((c :: cs).drop (Shape.first (c :: cs)).2).length ≤ m := by
          rw [List.length_drop]
          omega
        simp only [cutAtMost]
        rw [ih (Nat.le_trans hrest (Nat.le_of_succ_le_succ hm)) m (Nat.le_of_succ_le_succ hm) hrest]

theorem cut_of_ne_nil {cs : List Char} (hcs : cs ≠ []) :
    cut cs = ⟨(Shape.first cs).1, cs.take (Shape.first cs).2⟩ :: cut (cs.drop (Shape.first cs).2) := by
  obtain ⟨c, cs, rfl⟩ := List.exists_cons_of_ne_nil hcs
  have hpos := Shape.first_pos (c :: cs)
  have hrest : ((c :: cs).drop (Shape.first (c :: cs)).2).length ≤ cs.length := by
    rw [List.length_drop, List.length_cons]
    omega
  rw [← cutAtMost_eq_cut hrest]
  rfl

/-- A piece that the first shape takes off a text is the first of its pieces. -/
theorem cut_of_first {shape : Shape} {chars rest : List Char} (hchars : chars ≠ [])
    (hfirst : Shape.first (chars ++ rest) = (shape, chars.length)) :
    cut (chars ++ rest) = ⟨shape, chars⟩ :: cut rest := by
  rw [cut_of_ne_nil (List.append_ne_nil_of_left_ne_nil hchars rest), hfirst, List.take_left,
    List.drop_left]

/-- **Cutting goes by the ordered choice of the patterns, and there is no other way to cut.** -/
theorem cuts_iff {cs : List Char} {pieces : List Piece} : Cuts cs pieces ↔ pieces = cut cs := by
  constructor
  · intro h
    induction h with
    | nil => rfl
    | @cons shape chars rest pieces hfirst _ ih =>
      have hcs : chars ++ rest ≠ [] := by
        intro hnil
        rw [hnil, show Shape.choose [] = none from by decide] at hfirst
        simp at hfirst
      rw [Shape.choose_eq hcs, Option.some.injEq, Prod.mk.injEq] at hfirst
      obtain ⟨hshape, hrest⟩ := hfirst
      have hchars : (chars ++ rest).take (Shape.first (chars ++ rest)).2 = chars := by
        have happend := List.take_append_drop (Shape.first (chars ++ rest)).2 (chars ++ rest)
        rw [hrest] at happend
        exact List.append_cancel_right happend
      rw [cut_of_ne_nil hcs, hshape, hchars, hrest, ih]
  · rintro rfl
    induction hn : cs.length using Nat.strongRecOn generalizing cs with
    | ind n ih =>
      by_cases hcs : cs = []
      · subst hcs
        exact .nil
      · have hpos := Shape.first_pos cs
        have hlength := List.length_pos_iff.2 hcs
        have hrest := ih (cs.drop (Shape.first cs).2).length
          (by rw [List.length_drop]; omega) rfl
        have hfirst := Shape.choose_eq hcs
        have hcons : Cuts (cs.take (Shape.first cs).2 ++ cs.drop (Shape.first cs).2)
            (⟨(Shape.first cs).1, cs.take (Shape.first cs).2⟩ :: cut (cs.drop (Shape.first cs).2)) :=
          .cons (by rwa [List.take_append_drop]) hrest
        rwa [List.take_append_drop, ← cut_of_ne_nil hcs] at hcons

/-- The first of the pieces of a text is what the first shape that fits takes off. -/
theorem Cuts.head {cs : List Char} {piece : Piece} {pieces : List Piece}
    (h : Cuts cs (piece :: pieces)) :
    cs ≠ [] ∧ piece = ⟨(Shape.first cs).1, cs.take (Shape.first cs).2⟩ := by
  have hcut := cuts_iff.1 h
  have hne : cs ≠ [] := by
    rintro rfl
    exact List.cons_ne_nil _ _ hcut
  rw [cut_of_ne_nil hne] at hcut
  exact ⟨hne, (List.cons.inj hcut).1⟩

end Klex
