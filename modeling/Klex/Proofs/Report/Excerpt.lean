import Klex.Proofs.Report.Place

/-!
# Excerpts

A place is given by the number of line feeds in front of it, an excerpt by the number of a displayed line.

* **`Shows`** — a text in rows shows a line under a number, with a caret under a column; **`Shows.unique`** says
  that it shows one line only.
* **`excerpt_shows_displayed`** — **an excerpt shows the displayed line with the number that it is asked for.**
* **`Faithful`** — the excerpt of an offset shows the line around the offset, if it shows anything.
* **`excerptAt_shows`** — **excerpts are faithful at all offsets exactly if all lines of the text are plain.**
* **`excerptAt_formFeed`** — a text with a form feed, where an excerpt is not.
-/

namespace Klex

/-! ### What an excerpt shows -/

/-- What stands in front of a marked line: the mark, blanks, the number of the line and a bar. -/
def gutter (blanks number : Nat) : List Char :=
  "> ".toList ++ (List.replicate blanks ' ' ++ ((toString number).toList ++ " | ".toList))

/-- A text in rows shows a line under a number.  One row has the mark, the number and the line; the row below
has a caret under a column of the line; and no other row has the mark. -/
def Shows (text : String) (number col : Nat) (line : List Char) : Prop :=
  ∃ above below blanks lead,
    text.toList.splitOn '\n' = above ++ (gutter blanks number ++ line) :: (lead ++ ['^']) :: below ∧
      '^' ∉ lead ∧ lead.length + 1 = (gutter blanks number).length + col ∧
      ∀ row ∈ above ++ (lead ++ ['^']) :: below, row.head? ≠ some '>'

theorem toString_toList (n : Nat) : (toString n).toList = Nat.toDigits 10 n := by
  rw [Nat.toString_eq_ofList_toDigits, String.toList_ofList]

theorem not_mem_digits {c : Char} (hc : c.isDigit = false) (n : Nat) : c ∉ (toString n).toList := by
  rw [toString_toList]
  intro hmem
  rw [Nat.isDigit_of_mem_toDigits (by decide) (by decide) hmem] at hc
  cases hc

/-- Greater numbers do not have fewer digits. -/
theorem length_toString_mono {m n : Nat} (h : m ≤ n) : (toString m).length ≤ (toString n).length := by
  rw [← String.length_toList, ← String.length_toList, toString_toList, toString_toList]
  have hpos : 0 < (Nat.toDigits 10 n).length := List.length_pos_iff.2 Nat.toDigits_ne_nil
  have hn := (Nat.length_toDigits_le_iff (n := n) (b := 10) (by decide) hpos).1 (Nat.le_refl _)
  exact (Nat.length_toDigits_le_iff (by decide) hpos).2 (Nat.lt_of_le_of_lt h hn)

theorem gutter_append (blanks number : Nat) (line : List Char) :
    gutter blanks number ++ line = "> ".toList ++ (List.replicate blanks ' '
      ++ ((toString number).toList ++ (" | ".toList ++ line))) := by
  simp only [gutter, List.append_assoc]

theorem dropWhile_blanks (blanks number : Nat) (rest : List Char) :
    (List.replicate blanks ' ' ++ ((toString number).toList ++ rest)).dropWhile (· == ' ')
      = (toString number).toList ++ rest := by
  rw [List.dropWhile_append_of_pos fun c hc => beq_iff_eq.2 (List.eq_of_mem_replicate hc)]
  have hspace := not_mem_digits (c := ' ') rfl number
  cases hdigits : (toString number).toList with
  | nil => exact absurd ((toString_toList number).symm.trans hdigits) Nat.toDigits_ne_nil
  | cons d ds =>
    rw [hdigits] at hspace
    have hd : d ≠ ' ' := (List.ne_of_not_mem_cons hspace).symm
    exact List.dropWhile_cons_of_neg (by simpa using hd)

/-- A line is told from its number. -/
theorem gutter_append_inj {blanks blanks' number : Nat} {line line' : List Char}
    (h : gutter blanks number ++ line = gutter blanks' number ++ line') : line = line' := by
  rw [gutter_append, gutter_append] at h
  have hrest := congrArg (List.dropWhile (· == ' ')) (List.append_cancel_left h)
  rw [dropWhile_blanks, dropWhile_blanks] at hrest
  exact List.append_cancel_left (List.append_cancel_left hrest)

/-- **A text shows one line under a number.** -/
theorem Shows.unique {text : String} {number col col' : Nat} {line line' : List Char}
    (h : Shows text number col line) (h' : Shows text number col' line') : line = line' := by
  have hfind : ∀ {col line}, Shows text number col line →
      ∃ blanks, (text.toList.splitOn '\n').find? (fun row => row.head? == some '>')
        = some (gutter blanks number ++ line) := by
    rintro col line ⟨above, below, blanks, lead, hrows, -, -, hothers⟩
    refine ⟨blanks, ?_⟩
    rw [hrows, List.find?_append, List.find?_eq_none.2, List.find?_cons_of_pos]
    · rfl
    · rfl
    · intro row hrow
      simpa using hothers row (List.mem_append_left _ hrow)
  obtain ⟨blanks, hline⟩ := hfind h
  obtain ⟨blanks', hline'⟩ := hfind h'
  exact gutter_append_inj (Option.some.inj (hline.symm.trans hline'))

theorem Shows.text_ne {text : String} {number col : Nat} {line : List Char} (h : Shows text number col line) :
    text ≠ "" := by
  rintro rfl
  obtain ⟨above, below, blanks, lead, hrows, -⟩ := h
  have hlength := congrArg List.length hrows
  simp at hlength
  omega

/-! ### Rows -/

theorem padNumber_toList (width number : Nat) :
    (padNumber width number).toList
      = List.replicate (width - (toString number).length) ' ' ++ (toString number).toList := by
  rw [padNumber, String.toList_append, String.toList_ofList]

theorem excerptLine_marked (width number : Nat) (line : List Char) :
    (excerptLine width true number line).toList = gutter (width - (toString number).length) number ++ line := by
  rw [gutter_append, excerptLine]
  simp [padNumber_toList]

theorem caretLine_toList (width col : Nat) :
    (caretLine width (col + 1 : Nat)).toList
      = "  ".toList ++ (List.replicate width ' ' ++ (" | ".toList ++ List.replicate col ' ')) ++ ['^'] := by
  rw [caretLine]
  simp

theorem excerptLine_unmarked (width number : Nat) (line : List Char) :
    (excerptLine width false number line).toList.head? = some ' ' := by
  rw [excerptLine]
  simp

/-- Rows are rows if the lines in them are. -/
theorem not_mem_excerptLine {line : List Char} (hline : '\n' ∉ line) (width : Nat) (marked : Bool)
    (number : Nat) : '\n' ∉ (excerptLine width marked number line).toList := by
  have hdigits := not_mem_digits (c := '\n') rfl number
  have hmark : '\n' ∉ (if marked then ">" else " ").toList := by cases marked <;> decide
  simp only [excerptLine, padNumber_toList, String.toList_append, String.toList_ofList, List.mem_append,
    List.mem_replicate, hmark, hdigits, hline]
  simp

theorem not_mem_caretLine (width col : Nat) : '\n' ∉ (caretLine width (col + 1 : Nat)).toList := by
  rw [caretLine_toList]
  simp [List.mem_replicate]

theorem length_gutter (blanks number : Nat) :
    (gutter blanks number).length = blanks + (toString number).length + 5 := by
  simp only [gutter, List.length_append, List.length_replicate, String.length_toList]
  have hbars : " | ".length = 3 ∧ "> ".length = 2 := by decide
  omega

/-- **Rows with a mark, and a caret below it, show what is marked.** -/
theorem shows_rows {above below : List String} {width number col : Nat} {line : List Char}
    (hothers : ∀ row ∈ above ++ below, '\n' ∉ row.toList ∧ row.toList.head? = some ' ')
    (hline : '\n' ∉ line) (hwidth : (toString number).length ≤ width) :
    Shows ("\n".intercalate (above ++ excerptLine width true number line
      :: caretLine width (col + 1 : Nat) :: below)) number (col + 1) line := by
  obtain ⟨habove, hbelow⟩ := List.forall_mem_append.1 hothers
  have hcaret := caretLine_toList width col
  have hfree : ∀ row ∈ above ++ excerptLine width true number line
      :: caretLine width (col + 1 : Nat) :: below, '\n' ∉ row.toList := by
    rw [List.forall_mem_append, List.forall_mem_cons, List.forall_mem_cons]
    exact ⟨fun row hrow => (habove row hrow).1, not_mem_excerptLine hline width true number,
      not_mem_caretLine width col, fun row hrow => (hbelow row hrow).1⟩
  refine ⟨above.map String.toList, below.map String.toList, width - (toString number).length,
    "  ".toList ++ (List.replicate width ' ' ++ (" | ".toList ++ List.replicate col ' ')), ?_, ?_, ?_, ?_⟩
  · rw [String.toList_intercalate, ← excerptLine_marked, ← hcaret, ← List.map_cons, ← List.map_cons,
      ← List.map_append]
    exact List.splitOn_intercalate '\n' (List.forall_mem_map.2 hfree) (by simp)
  · simp [List.mem_replicate]
  · rw [length_gutter]
    simp only [List.length_append, List.length_replicate, String.length_toList]
    have hbars : " | ".length = 3 ∧ "  ".length = 2 := by decide
    omega
  · rw [List.forall_mem_append, List.forall_mem_cons]
    refine ⟨List.forall_mem_map.2 fun row hrow => ?_, by simp, List.forall_mem_map.2 fun row hrow => ?_⟩
    · rw [(habove row hrow).2]
      decide
    · rw [(hbelow row hrow).2]
      decide

theorem mem_of_mem_zipIdx {α : Type} {lines : List α} {n : Nat} {entry : α × Nat}
    (h : entry ∈ lines.zipIdx n) : entry.1 ∈ lines := by
  obtain ⟨-, -, hline⟩ := List.mem_zipIdx h
  rw [hline]
  exact List.getElem_mem _

/-- The lines around one of them, each with its number. -/
theorem zipIdx_split {α : Type} {lines : List α} {k first last : Nat} (hk : k < lines.length)
    (hfirst : first ≤ k) (hlast : k < last) :
    ∃ above below, ((lines.take last).zipIdx 1).drop first = above ++ (lines[k], k + 1) :: below ∧
      ∀ entry ∈ above ++ below, entry.2 ≠ k + 1 ∧ entry.1 ∈ lines := by
  have hlength : (lines.take k).length = k := List.length_take_of_le hk.le
  obtain ⟨after, hsplit⟩ : ∃ after, lines.take last = lines.take k ++ lines[k] :: after := by
    have hlen : k < (lines.take last).length := by
      rw [List.length_take]
      omega
    have happend := List.take_append_drop k (lines.take last)
    rw [List.drop_eq_getElem_cons hlen, List.getElem_take, List.take_take, Nat.min_eq_left hlast.le] at happend
    exact ⟨_, happend.symm⟩
  have hzip : (lines.take last).zipIdx 1
      = (lines.take k).zipIdx 1 ++ (lines[k], k + 1) :: after.zipIdx (k + 2) := by
    rw [hsplit, List.zipIdx_append, List.zipIdx_cons, hlength, Nat.add_comm 1 k]
  have hfront : first ≤ ((lines.take k).zipIdx 1).length := by
    rw [List.length_zipIdx, hlength]
    exact hfirst
  refine ⟨((lines.take k).zipIdx 1).drop first, after.zipIdx (k + 2), ?_, fun entry hentry => ?_⟩
  · rw [hzip, List.drop_append_of_le_length hfront]
  · rcases List.mem_append.1 hentry with hmem | hmem
    · have habove := List.mem_of_mem_drop hmem
      obtain ⟨-, hlt, -⟩ := List.mem_zipIdx habove
      exact ⟨by omega, List.mem_of_mem_take (mem_of_mem_zipIdx habove)⟩
    · obtain ⟨hle, -, -⟩ := List.mem_zipIdx hmem
      have hline : entry.1 ∈ lines.take last := by
        rw [hsplit]
        exact List.mem_append_right _ (List.mem_cons_of_mem _ (mem_of_mem_zipIdx hmem))
      exact ⟨by omega, List.mem_of_mem_take hline⟩

theorem flatMap_singleton_of {α β : Type} {f : α → List β} (g : α → β) (entries : List α)
    (h : ∀ entry ∈ entries, f entry = [g entry]) : entries.flatMap f = entries.map g := by
  rw [List.map_eq_flatMap]
  exact List.flatMap_congr h

/-- **An excerpt shows the displayed line with the number that it is asked for**, and has its caret under the
column that it is asked for. -/
theorem excerpt_shows_displayed {source : String} {k col : Nat} {radius : Int} (hradius : 0 ≤ radius)
    {shown : List Char} (hshown : (Text.splitLines source.toList)[k]? = some shown) :
    Shows (excerpt source (k + 1 : Nat) (some (col + 1 : Nat)) radius) (k + 1) (col + 1) shown := by
  obtain ⟨hk, hline⟩ := List.getElem?_eq_some_iff.1 hshown
  have hfree : ∀ line ∈ Text.splitLines source.toList, '\n' ∉ line := by
    intro line hmem hbreak
    exact absurd (Text.breaksLine_of_mem hmem _ hbreak) (by decide)
  rw [excerpt]
  generalize Text.splitLines source.toList = lines at *
  have hinside : (decide (((k + 1 : Nat) : Int) < 1) ||
      decide ((lines.length : Int) < (k + 1 : Nat))) = false := by
    simp
    omega
  simp only [hinside, Bool.false_eq_true, if_false]
  have hfirst : (max 1 (((k + 1 : Nat) : Int) - radius)).toNat - 1 ≤ k := by omega
  have hlast : k < (min (lines.length : Int) ((k + 1 : Nat) + radius)).toNat := by omega
  generalize (max 1 (((k + 1 : Nat) : Int) - radius)).toNat - 1 = first at *
  generalize (min (lines.length : Int) ((k + 1 : Nat) + radius)).toNat = last at *
  have hwidth := length_toString_mono hlast
  generalize (toString last).length = width at *
  obtain ⟨above, below, hsplit, hothers⟩ := zipIdx_split hk hfirst hlast
  rw [hsplit, List.flatMap_append, List.flatMap_cons]
  obtain ⟨habove, hbelow⟩ := List.forall_mem_append.1 hothers
  have hmarked : (((k + 1 : Nat) : Int) == (k + 1 : Nat)) = true := beq_self_eq_true _
  have hnumber : ∀ entry : List Char × Nat, entry.2 ≠ k + 1 →
      ((entry.2 : Int) == (k + 1 : Nat)) = false :=
    fun entry hne => beq_eq_false_iff_ne.2 fun h => hne (Int.ofNat.inj h)
  -- one row for each line above and below, and two for the one in between
  rw [flatMap_singleton_of (fun entry => excerptLine width false entry.2 entry.1) above,
    flatMap_singleton_of (fun entry => excerptLine width false entry.2 entry.1) below, hmarked, hline]
  · have hrow : ∀ entry : List Char × Nat, entry.1 ∈ lines →
        '\n' ∉ (excerptLine width false entry.2 entry.1).toList ∧
          (excerptLine width false entry.2 entry.1).toList.head? = some ' ' := fun entry hmem =>
      ⟨not_mem_excerptLine (hfree _ hmem) width false entry.2, excerptLine_unmarked width entry.2 entry.1⟩
    apply shows_rows _ (hfree shown (hline ▸ List.getElem_mem hk)) hwidth
    intro row hmem
    rcases List.mem_append.1 hmem with hmem | hmem
    · obtain ⟨entry, hentry, rfl⟩ := List.mem_map.1 hmem
      exact hrow entry (habove entry hentry).2
    · obtain ⟨entry, hentry, rfl⟩ := List.mem_map.1 hmem
      exact hrow entry (hbelow entry hentry).2
  · intro entry hentry
    rw [hnumber entry (hbelow entry hentry).1]
  · intro entry hentry
    rw [hnumber entry (habove entry hentry).1]

theorem excerpt_eq_empty {source : String} {k : Nat} {col : Option Int} {radius : Int}
    (hshown : (Text.splitLines source.toList)[k]? = none) :
    excerpt source (k + 1 : Nat) col radius = "" := by
  have hk := List.getElem?_eq_none_iff.1 hshown
  have houtside : (decide (((k + 1 : Nat) : Int) < 1) ||
      decide (((Text.splitLines source.toList).length : Int) < (k + 1 : Nat))) = true := by
    simp
    omega
  rw [excerpt]
  simp only [houtside, if_true]

/-! ### Excerpts of places -/

/-- The excerpt that goes with an offset. -/
def excerptAt (source : String) (pos : Nat) : String :=
  excerpt source (placeOf source pos).line (some ((placeOf source pos).col : Int)) excerptRadius

/-- Whether the excerpt of an offset, if there is one, shows the line around the offset without its carriage
return, with a caret under the column of the offset. -/
def Faithful (source : String) (pos : Nat) : Prop :=
  excerptAt source pos = "" ∨
    Shows (excerptAt source pos) (placeOf source pos).line (placeOf source pos).col
      (Text.withoutReturn (Text.lineAround source.toList pos))

section

variable {source : String} {pos : Nat} {shown : List Char}

theorem excerptAt_displayed
    (h : (Text.splitLines source.toList)[(source.toList.take pos).count '\n']? = some shown) :
    Shows (excerptAt source pos) (placeOf source pos).line (placeOf source pos).col shown := by
  rw [excerptAt, placeOf_eq]
  exact excerpt_shows_displayed (by decide) h

theorem excerptAt_eq_empty
    (h : (Text.splitLines source.toList)[(source.toList.take pos).count '\n']? = none) :
    excerptAt source pos = "" := by
  rw [excerptAt, placeOf_eq]
  exact excerpt_eq_empty h

/-- **Where the line around an offset is not plain, its excerpt shows something else.** -/
theorem not_faithful (hpos : pos ≤ source.toList.length)
    (hline : ¬ Text.IsPlain (Text.lineAround source.toList pos)) : ¬ Faithful source pos := by
  have hne : Text.lineAround source.toList pos ≠ [] := by
    intro hnil
    rw [hnil] at hline
    exact hline Text.isPlain_nil
  have hlt := Text.lt_length_splitLines (Text.getElem?_splitOn hpos) hne
  have hshown := excerptAt_displayed (List.getElem?_eq_getElem hlt)
  rintro (hempty | hshows)
  · rw [hempty] at hshown
    exact hshown.text_ne rfl
  · exact Text.displayed_ne (List.getElem_mem hlt) hline (hshown.unique hshows)

/-- Where all lines are plain, every excerpt shows what it should. -/
theorem faithful_of_plain (hplain : ∀ line ∈ source.toList.splitOn '\n', Text.IsPlain line)
    (hpos : pos ≤ source.toList.length) : Faithful source pos := by
  cases h : (Text.splitLines source.toList)[(source.toList.take pos).count '\n']? with
  | none => exact .inl (excerptAt_eq_empty h)
  | some shown =>
    rw [Faithful, ← Text.displayed_of_plain hplain h (Text.getElem?_splitOn hpos)]
    exact .inr (excerptAt_displayed h)

end

/-- **An excerpt shows a displayed line by its number, and not the line around the offset.**  It shows the
displayed line that has the number of the line around the offset, if there is such a line; at every offset this
is the line around it exactly if all lines are plain. -/
theorem excerptAt_shows (source : String) :
    (∀ (pos : Nat) (shown : List Char),
        (Text.splitLines source.toList)[(placeOf source pos).line - 1]? = some shown →
        Shows (excerptAt source pos) (placeOf source pos).line (placeOf source pos).col shown) ∧
      (∀ pos : Nat, (Text.splitLines source.toList).length < (placeOf source pos).line →
        excerptAt source pos = "") ∧
      ((∀ pos ≤ source.length, Faithful source pos) ↔
        ∀ line ∈ source.toList.splitOn '\n', Text.IsPlain line) := by
  refine ⟨fun pos shown h => ?_, fun pos h => ?_, fun h line hmem => ?_, fun hplain pos hpos => ?_⟩
  · rw [placeOf_eq] at h
    exact excerptAt_displayed h
  · rw [placeOf_eq] at h
    exact excerptAt_eq_empty (List.getElem?_eq_none_iff.2 (Nat.le_of_lt_succ h))
  · obtain ⟨k, hk, hline⟩ := List.mem_iff_getElem.1 hmem
    obtain ⟨pos, hpos, hcount⟩ := Text.exists_count_take hk
    have haround : Text.lineAround source.toList pos = line := by
      have hget := Text.getElem?_splitOn hpos
      rw [hcount, List.getElem?_eq_getElem hk, hline] at hget
      exact (Option.some.inj hget).symm
    by_contra hbroken
    rw [← haround] at hbroken
    exact not_faithful hpos hbroken (h pos (String.length_toList ▸ hpos))
  · exact faithful_of_plain hplain (String.length_toList.symm ▸ hpos)

/-- A form feed in a comment moves the excerpt of what follows by a line. -/
theorem excerptAt_formFeed :
    excerptAt "// a\x0cb\nx" 7 = "  1 | // a\n> 2 | b\n    | ^\n  3 | x" ∧
      Text.lineAround "// a\x0cb\nx".toList 7 = ['x'] ∧ ¬ Faithful "// a\x0cb\nx" 7 := by
  refine ⟨by decide, by decide, ?_⟩
  have hshown : Shows (excerptAt "// a\x0cb\nx" 7) (placeOf "// a\x0cb\nx" 7).line
      (placeOf "// a\x0cb\nx" 7).col ['b'] := excerptAt_displayed (by decide)
  rintro (hempty | hshows)
  · exact hshown.text_ne hempty
  · exact absurd (hshown.unique hshows) (by decide)

end Klex
