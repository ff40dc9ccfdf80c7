import Klex.Text.Lines
import Mathlib.Data.List.DropRight

/-!
# Lines of a text

A text has lines between its line feeds, and it has lines that are displayed; many more characters end one of
these.

* **`Text.lineAround`** — the line around an offset.
* **`Text.lines_induction`** — induction on the lines of a text.
* **`Text.getElem?_splitOn`** — **the line around an offset is the one with as many lines in front of it as
  there are line feeds in front of the offset.**
* **`Text.IsPlain`** — nothing breaks a line but perhaps a carriage return at its end.
* **`Text.splitLines_append`** — displayed lines do not go on across a line feed.
* **`Text.displayed_of_plain`** — **where all lines are plain, the displayed ones are the same, less a carriage
  return at the end**; **`Text.displayed_ne`** — a line that is not plain is not displayed at all.
-/

namespace Klex.Text

/-! ### Lines between line feeds -/

/-- The line around an offset: all characters next to it up to a line feed on either side. -/
def lineAround (cs : List Char) (pos : Nat) : List Char :=
  (cs.take pos).rtakeWhile (· != '\n') ++ (cs.drop pos).takeWhile (· != '\n')

/-- A text consists of lines: the last one, and those in front of it with their ends. -/
@[elab_as_elim]
theorem lines_induction {motive : List Char → Prop} (last : ∀ line, '\n' ∉ line → motive line)
    (cons : ∀ line rest, '\n' ∉ line → motive rest → motive (line ++ '\n' :: rest)) (cs : List Char) :
    motive cs := by
  induction hn : cs.length using Nat.strongRecOn generalizing cs with
  | ind n ih =>
    have happend : cs.takeWhile (· != '\n') ++ cs.dropWhile (· != '\n') = cs :=
      List.takeWhile_append_dropWhile
    have hline : '\n' ∉ cs.takeWhile (· != '\n') := fun hmem => by
      have hne := List.mem_takeWhile_imp hmem
      exact absurd hne (by decide)
    cases hrest : cs.dropWhile (· != '\n') with
    | nil =>
      rw [hrest, List.append_nil] at happend
      rw [happend] at hline
      exact last cs hline
    | cons c rest =>
      have hc : c = '\n' := by
        have hnot := List.head?_dropWhile_not (· != '\n') cs
        rw [hrest] at hnot
        simpa using hnot
      rw [hrest, hc] at happend
      rw [← happend]
      refine cons _ rest hline (ih rest.length ?_ rest rfl)
      rw [← hn, ← happend, List.length_append, List.length_cons]
      omega

section

variable {line : List Char}

theorem takeWhile_line (hline : '\n' ∉ line) : line.takeWhile (· != '\n') = line := by
  rw [List.takeWhile_eq_self_iff]
  rintro c hc
  rw [bne_iff_ne]
  rintro rfl
  exact hline hc

theorem rtakeWhile_line (hline : '\n' ∉ line) : line.rtakeWhile (· != '\n') = line := by
  rw [List.rtakeWhile_eq_self_iff]
  rintro c hc
  rw [bne_iff_ne]
  rintro rfl
  exact hline hc

/-- An offset in the first line is in this line. -/
theorem lineAround_first (hline : '\n' ∉ line) {rest : List Char} (hrest : ∀ c ∈ rest.head?, c = '\n')
    {pos : Nat} (hpos : pos ≤ line.length) :
    ((line ++ rest).take pos).count '\n' = 0 ∧ lineAround (line ++ rest) pos = line := by
  have htake : '\n' ∉ line.take pos := fun hmem => hline (List.mem_of_mem_take hmem)
  have hdrop : '\n' ∉ line.drop pos := fun hmem => hline (List.mem_of_mem_drop hmem)
  have hbehind : (line.drop pos ++ rest).takeWhile (· != '\n') = line.drop pos := by
    rw [List.takeWhile_append_of_pos (List.takeWhile_eq_self_iff.1 (takeWhile_line hdrop))]
    cases rest with
    | nil => exact List.append_nil _
    | cons c cs => rw [hrest c rfl, List.takeWhile_cons_of_neg (by decide), List.append_nil]
  rw [lineAround, List.take_append_of_le_length hpos, List.drop_append_of_le_length hpos, hbehind,
    rtakeWhile_line htake, List.take_append_drop]
  exact ⟨List.count_eq_zero.2 htake, rfl⟩

/-- What stands behind the last line feed does not depend on anything in front of a line feed. -/
theorem rtakeWhile_append_feed (line rest : List Char) :
    (line ++ '\n' :: rest).rtakeWhile (· != '\n') = rest.rtakeWhile (· != '\n') := by
  rw [List.rtakeWhile, List.rtakeWhile, List.reverse_append, List.reverse_cons, List.append_assoc,
    List.takeWhile_append]
  split
  · next hall =>
    rw [List.singleton_append, List.takeWhile_cons_of_neg (by decide), List.append_nil,
      (List.takeWhile_prefix _).eq_of_length hall]
  · rfl

/-- An offset behind the first line is in the same line as without it. -/
theorem lineAround_further (hline : '\n' ∉ line) (rest : List Char) (pos : Nat) :
    ((line ++ '\n' :: rest).take (line.length + (pos + 1))).count '\n' = (rest.take pos).count '\n' + 1 ∧
      lineAround (line ++ '\n' :: rest) (line.length + (pos + 1)) = lineAround rest pos := by
  have htake : (line ++ '\n' :: rest).take (line.length + (pos + 1)) = line ++ '\n' :: rest.take pos :=
    List.take_length_add_append (pos + 1)
  have hdrop : (line ++ '\n' :: rest).drop (line.length + (pos + 1)) = rest.drop pos :=
    List.drop_length_add_append (pos + 1)
  rw [lineAround, htake, hdrop, rtakeWhile_append_feed, List.count_append, List.count_cons_self,
    List.count_eq_zero.2 hline, Nat.zero_add]
  exact ⟨rfl, rfl⟩

end

/-- **The line around an offset is the one with as many line ends in front of it as the offset has.** -/
theorem getElem?_splitOn {cs : List Char} {pos : Nat} (hpos : pos ≤ cs.length) :
    (cs.splitOn '\n')[(cs.take pos).count '\n']? = some (lineAround cs pos) := by
  induction cs using lines_induction generalizing pos with
  | last line hline =>
    have hnone : ∀ c ∈ ([] : List Char).head?, c = '\n' := fun c hc => by cases hc
    obtain ⟨hcount, haround⟩ := lineAround_first hline hnone hpos
    rw [List.append_nil] at hcount haround
    rw [List.splitOn_eq_singleton hline, hcount, haround]
    rfl
  | cons line rest hline ih =>
    rw [List.splitOn_append_cons_self_of_not_mem hline]
    rcases Nat.lt_or_ge line.length pos with hlt | hge
    · obtain ⟨n, rfl⟩ := Nat.exists_eq_add_of_lt hlt
      obtain ⟨hcount, haround⟩ := lineAround_further hline rest n
      have hn : n ≤ rest.length := by
        rw [List.length_append, List.length_cons] at hpos
        omega
      rw [Nat.add_assoc, hcount, haround, List.getElem?_cons_succ]
      exact ih hn
    · have hfeed : ∀ c ∈ ('\n' :: rest).head?, c = '\n' := fun c hc => (Option.some.inj hc).symm
      obtain ⟨hcount, haround⟩ := lineAround_first hline hfeed hge
      rw [hcount, haround]
      rfl

/-- Every line is around some offset. -/
theorem exists_count_take {cs : List Char} {k : Nat} (hk : k < (cs.splitOn '\n').length) :
    ∃ pos ≤ cs.length, (cs.take pos).count '\n' = k := by
  induction cs using lines_induction generalizing k with
  | last line hline =>
    rw [List.splitOn_eq_singleton hline, List.length_singleton, Nat.lt_one_iff] at hk
    exact ⟨0, Nat.zero_le _, hk.symm⟩
  | cons line rest hline ih =>
    rw [List.splitOn_append_cons_self_of_not_mem hline, List.length_cons] at hk
    cases k with
    | zero => exact ⟨0, Nat.zero_le _, rfl⟩
    | succ k =>
      obtain ⟨pos, hpos, hcount⟩ := ih (Nat.lt_of_succ_lt_succ hk)
      refine ⟨line.length + (pos + 1), ?_, ?_⟩
      · rw [List.length_append, List.length_cons]
        omega
      · rw [(lineAround_further hline rest pos).1, hcount]

/-! ### Displayed lines -/

/-- A line without the carriage return that it may end with. -/
def withoutReturn (line : List Char) : List Char :=
  if line.getLast? = some '\r' then line.dropLast else line

/-- Whether nothing breaks a line but perhaps a carriage return at its end. -/
def IsPlain (line : List Char) : Prop := ∀ c ∈ withoutReturn line, breaksLine c = false

instance (line : List Char) : Decidable (IsPlain line) :=
  inferInstanceAs (Decidable (∀ c ∈ withoutReturn line, breaksLine c = false))

theorem isPlain_nil : IsPlain [] := by simp [IsPlain, withoutReturn]

section

variable {c : Char} {cs line : List Char}

/-- A character that does not break a line goes in front of the first one. -/
theorem splitLines_cons (hc : breaksLine c = false) (cs : List Char) :
    splitLines (c :: cs) = extendLine c (splitLines cs) := by
  rw [splitLines, hc]
  · rfl
  · rintro rest rfl -
    exact absurd hc (by decide)

/-- A character that does ends a line, unless it is one half of an end. -/
theorem splitLines_cons_break (hc : breaksLine c = true) (hpair : c = '\r' → cs.head? ≠ some '\n') :
    splitLines (c :: cs) = [] :: splitLines cs := by
  rw [splitLines, hc]
  · rfl
  · rintro rest rfl rfl
    exact hpair rfl rfl

theorem extendLine_append {lines : List (List Char)} (hlines : lines ≠ []) (more : List (List Char)) :
    extendLine c (lines ++ more) = extendLine c lines ++ more := by
  obtain ⟨line, others, rfl⟩ := List.exists_cons_of_ne_nil hlines
  rfl

theorem extendLine_ne_nil (lines : List (List Char)) : extendLine c lines ≠ [] := by
  cases lines <;> exact List.cons_ne_nil _ _

theorem splitLines_ne_nil (hcs : cs ≠ []) : splitLines cs ≠ [] := by
  fun_cases splitLines cs with
  | case1 => exact absurd rfl hcs
  | case2 rest => exact List.cons_ne_nil _ _
  | case3 c rest _ hc => exact List.cons_ne_nil _ _
  | case4 c rest _ hc => exact extendLine_ne_nil _

/-- **Displayed lines do not go on across a line feed.** -/
theorem splitLines_append (hline : '\n' ∉ line) (rest : List Char) :
    splitLines (line ++ '\n' :: rest) = splitLines (line ++ ['\n']) ++ splitLines rest := by
  induction line with
  | nil => rfl
  | cons c line ih =>
    have hmore := ih (List.not_mem_of_not_mem_cons hline)
    rw [List.cons_append, List.cons_append]
    cases hc : breaksLine c with
    | false =>
      rw [splitLines_cons hc, splitLines_cons hc, hmore,
        extendLine_append (splitLines_ne_nil (List.append_ne_nil_of_right_ne_nil _ (List.cons_ne_nil _ _)))]
    | true =>
      cases line with
      | nil =>
        -- a carriage return is one end of a line with the line feed, any other character is an end of its own
        by_cases hreturn : c = '\r'
        · rw [hreturn]
          rfl
        · rw [List.nil_append, List.nil_append, splitLines_cons_break hc fun h => absurd h hreturn,
            splitLines_cons_break hc fun h => absurd h hreturn]
          rfl
      | cons d line =>
        have hd : '\n' ≠ d := List.ne_of_not_mem_cons (List.not_mem_of_not_mem_cons hline)
        have hpair : ∀ rest, (d :: line ++ rest).head? ≠ some '\n' := fun rest h =>
          hd (Option.some.inj h).symm
        rw [splitLines_cons_break hc fun _ => hpair _, splitLines_cons_break hc fun _ => hpair _, hmore]
        rfl

/-- **Nothing in a displayed line breaks it.** -/
theorem breaksLine_of_mem {shown : List Char} (hshown : shown ∈ splitLines cs) :
    ∀ c ∈ shown, breaksLine c = false := by
  fun_induction splitLines cs generalizing shown with
  | case1 => exact absurd hshown List.not_mem_nil
  | case2 rest ih =>
    rcases List.mem_cons.1 hshown with rfl | hmem
    · exact fun c hc => absurd hc List.not_mem_nil
    · exact ih hmem
  | case3 c rest _ hc ih =>
    rcases List.mem_cons.1 hshown with rfl | hmem
    · exact fun c hc => absurd hc List.not_mem_nil
    · exact ih hmem
  | case4 c rest _ hc ih =>
    have hfree : breaksLine c = false := by simpa using hc
    cases hlines : splitLines rest with
    | nil =>
      rw [hlines] at hshown
      rw [List.mem_singleton.1 hshown]
      exact List.forall_mem_singleton.2 hfree
    | cons line more =>
      rw [hlines] at hshown ih
      rcases List.mem_cons.1 hshown with rfl | hmem
      · exact List.forall_mem_cons.2 ⟨hfree, ih List.mem_cons_self⟩
      · exact ih (List.mem_cons_of_mem _ hmem)

theorem splitLines_free {body : List Char} (hbody : ∀ c ∈ body, breaksLine c = false) (rest : List Char) :
    splitLines (body ++ rest) = body.foldr extendLine (splitLines rest) := by
  induction body with
  | nil => rfl
  | cons c body ih =>
    obtain ⟨hc, hothers⟩ := List.forall_mem_cons.1 hbody
    rw [List.cons_append, splitLines_cons hc, ih hothers]
    rfl

theorem foldr_extendLine (body : List Char) : body.foldr extendLine [[]] = [body] := by
  induction body with
  | nil => rfl
  | cons c body ih =>
    rw [List.foldr_cons, ih]
    rfl

theorem foldr_extendLine_nil (body : List Char) :
    body.foldr extendLine [] = if body = [] then [] else [body] := by
  induction body with
  | nil => rfl
  | cons c body ih =>
    rw [List.foldr_cons, ih, if_neg (List.cons_ne_nil c body)]
    by_cases hbody : body = []
    · rw [if_pos hbody, hbody]
      rfl
    · rw [if_neg hbody]
      rfl

/-- A line ends with a carriage return or not. -/
theorem withoutReturn_append (line : List Char) :
    line = withoutReturn line ∨ line = withoutReturn line ++ ['\r'] := by
  rw [withoutReturn]
  split
  · next hlast => exact .inr (List.dropLast_append_getLast? _ hlast).symm
  · exact .inl rfl

/-- **A plain line is displayed without its carriage return**, whether it has an end or not. -/
theorem splitLines_plain (hplain : IsPlain line) :
    splitLines (line ++ ['\n']) = [withoutReturn line] ∧
      ∀ shown ∈ splitLines line, shown = withoutReturn line := by
  rcases withoutReturn_append line with hline | hline
  · have hended := splitLines_free hplain ['\n']
    have hopen : splitLines (withoutReturn line ++ []) = (withoutReturn line).foldr extendLine [] :=
      splitLines_free hplain []
    rw [← hline] at hended hopen ⊢
    rw [List.append_nil] at hopen
    rw [hended, hopen]
    refine ⟨foldr_extendLine line, fun shown hshown => ?_⟩
    rw [foldr_extendLine_nil] at hshown
    split at hshown
    · exact absurd hshown List.not_mem_nil
    · exact List.mem_singleton.1 hshown
  · have hended := splitLines_free hplain ['\r', '\n']
    have hopen := splitLines_free hplain ['\r']
    have hpair : line ++ ['\n'] = withoutReturn line ++ ['\r', '\n'] := by
      conv_lhs => rw [hline, List.append_assoc]
      rfl
    rw [← hline] at hopen
    rw [hpair, hended, hopen]
    exact ⟨foldr_extendLine _, fun shown hshown => List.mem_singleton.1 (foldr_extendLine _ ▸ hshown)⟩

end

section

variable {cs line shown : List Char} {k : Nat}

/-- **Where all lines are plain, those that are displayed are the lines themselves.** -/
theorem displayed_of_plain (hplain : ∀ line ∈ cs.splitOn '\n', IsPlain line)
    (hshown : (splitLines cs)[k]? = some shown) (hline : (cs.splitOn '\n')[k]? = some line) :
    shown = withoutReturn line := by
  induction cs using lines_induction generalizing k with
  | last first hfirst =>
    rw [List.splitOn_eq_singleton hfirst] at hplain hline
    have hmem := List.mem_of_getElem? hshown
    obtain rfl : line = first := List.mem_singleton.1 (List.mem_of_getElem? hline)
    exact (splitLines_plain (List.forall_mem_singleton.1 hplain)).2 shown hmem
  | cons first rest hfirst ih =>
    rw [List.splitOn_append_cons_self_of_not_mem hfirst] at hplain hline
    obtain ⟨hhead, hothers⟩ := List.forall_mem_cons.1 hplain
    rw [splitLines_append hfirst, (splitLines_plain hhead).1] at hshown
    cases k with
    | zero =>
      rw [← Option.some.inj hline]
      exact (Option.some.inj hshown).symm
    | succ k => exact ih hothers hshown hline

/-- A line with something in it is displayed, perhaps further down. -/
theorem lt_length_splitLines (hline : (cs.splitOn '\n')[k]? = some line) (hne : line ≠ []) :
    k < (splitLines cs).length := by
  induction cs using lines_induction generalizing k with
  | last first hfirst =>
    rw [List.splitOn_eq_singleton hfirst] at hline
    obtain ⟨hk, hsame⟩ := List.getElem?_eq_some_iff.1 hline
    rw [List.length_singleton, Nat.lt_one_iff] at hk
    subst hk
    obtain rfl : first = line := hsame
    exact List.length_pos_iff.2 (splitLines_ne_nil hne)
  | cons first rest hfirst ih =>
    have hended : 0 < (splitLines (first ++ ['\n'])).length :=
      List.length_pos_iff.2 (splitLines_ne_nil (List.append_ne_nil_of_right_ne_nil _ (List.cons_ne_nil _ _)))
    rw [List.splitOn_append_cons_self_of_not_mem hfirst] at hline
    rw [splitLines_append hfirst, List.length_append]
    cases k with
    | zero => omega
    | succ k =>
      have hrest := ih hline
      omega

/-- **A line that is not plain is not displayed.** -/
theorem displayed_ne (hshown : shown ∈ splitLines cs) (hline : ¬ IsPlain line) :
    shown ≠ withoutReturn line := by
  rintro rfl
  exact hline (breaksLine_of_mem hshown)

end

end Klex.Text
