import Klex.Proofs.Text.Lines
import Klex.Report
import Mathlib.Algebra.Ring.Nat
import Mathlib.Data.Prod.Lex
import Mathlib.Order.Interval.Set.Defs

/-!
# Places and offsets

A place has the number of a line and a column in it.  Lines end with a line feed here, so the lengths of the
lines tell the offset from the place.

* **`placeAfter_append_feed`** — a line in front moves a place one line down.
* **`Place.offsetIn`** — the offset of a place: the lines above it with their ends, and the columns in front.
* **`Place.IsIn`** — a text has such a line, and the column is in this line or right behind it.
* **`offsetIn_placeAfter`**, **`placeAfter_offsetIn`** — **offsets within a text and places in it determine each
  other.**
* **`rank_placeAfter_lt`** — **a greater offset has a later place**, by line first and then by column.
* **`placeOf_invertible`** — all of this for the places of a source, where an offset outside the source counts as
  its nearer end.
-/

namespace Klex

/-! ### The place behind a text -/

theorem placeAfter_eq (before : List Char) :
    placeAfter before = ⟨before.count '\n' + 1, (before.rtakeWhile (· != '\n')).length + 1⟩ := by
  rw [placeAfter, List.rtakeWhile, List.length_reverse]

theorem placeOf_eq (source : String) (pos : Nat) :
    placeOf source pos = ⟨(source.toList.take pos).count '\n' + 1,
      ((source.toList.take pos).rtakeWhile (· != '\n')).length + 1⟩ := by
  rw [placeOf, Int.toNat_natCast, placeAfter_eq]

/-- The place in the same column of the next line. -/
def Place.below (place : Place) : Place := ⟨place.line + 1, place.col⟩

@[simp] theorem Place.below_line (place : Place) : place.below.line = place.line + 1 := rfl

@[simp] theorem Place.below_col (place : Place) : place.below.col = place.col := rfl

section

variable {line : List Char}

theorem placeAfter_line (hline : '\n' ∉ line) : placeAfter line = ⟨1, line.length + 1⟩ := by
  rw [placeAfter_eq, List.count_eq_zero.2 hline, Text.rtakeWhile_line hline]

/-- A line in front moves a place one line down. -/
theorem placeAfter_append_feed (hline : '\n' ∉ line) (before : List Char) :
    placeAfter (line ++ '\n' :: before) = (placeAfter before).below := by
  rw [placeAfter_eq, placeAfter_eq, Text.rtakeWhile_append_feed, List.count_append, List.count_cons_self,
    List.count_eq_zero.2 hline, Nat.zero_add]
  rfl

/-- The place of an offset in the first line. -/
theorem placeAfter_first (hline : '\n' ∉ line) (rest : List Char) {pos : Nat} (hpos : pos ≤ line.length) :
    placeAfter ((line ++ rest).take pos) = ⟨1, pos + 1⟩ := by
  have hfree : '\n' ∉ line.take pos := fun hmem => hline (List.mem_of_mem_take hmem)
  rw [List.take_append_of_le_length hpos, placeAfter_line hfree, List.length_take_of_le hpos]

/-- The place of an offset behind the first line. -/
theorem placeAfter_further (hline : '\n' ∉ line) (rest : List Char) (pos : Nat) :
    placeAfter ((line ++ '\n' :: rest).take (line.length + (pos + 1))) = (placeAfter (rest.take pos)).below := by
  rw [List.take_length_add_append, List.take_succ_cons, placeAfter_append_feed hline]

end

/-! ### The offset of a place -/

/-- The offset of a place: the lengths of all lines above it, each with its line feed, and the columns in front
of it. -/
def Place.offsetIn (cs : List Char) (place : Place) : Nat :=
  (((cs.splitOn '\n').take (place.line - 1)).map fun line => line.length + 1).sum + (place.col - 1)

/-- Whether a text has a place.  The last one of a line is right behind its last character. -/
structure Place.IsIn (cs : List Char) (place : Place) : Prop where
  line_pos : 1 ≤ place.line
  col_pos : 1 ≤ place.col
  col_le : ∃ line, (cs.splitOn '\n')[place.line - 1]? = some line ∧ place.col - 1 ≤ line.length

theorem Place.offsetIn_first (cs : List Char) (col : Nat) : (Place.mk 1 col).offsetIn cs = col - 1 :=
  Nat.zero_add _

section

variable {line rest : List Char} {place : Place}

theorem Place.offsetIn_below (hline : '\n' ∉ line) (hplace : 1 ≤ place.line) :
    place.below.offsetIn (line ++ '\n' :: rest) = line.length + (place.offsetIn rest + 1) := by
  obtain ⟨k, hk⟩ := Nat.exists_eq_add_of_le' hplace
  rw [Place.offsetIn, Place.offsetIn, List.splitOn_append_cons_self_of_not_mem hline, Place.below_line,
    Place.below_col, hk, Nat.add_sub_cancel, Nat.add_sub_cancel, List.take_succ_cons, List.map_cons,
    List.sum_cons]
  omega

theorem Place.IsIn.of_below (hline : '\n' ∉ line) (hplace : 1 ≤ place.line)
    (h : place.below.IsIn (line ++ '\n' :: rest)) : place.IsIn rest := by
  obtain ⟨-, hcol, own, hown, hle⟩ := h
  obtain ⟨k, hk⟩ := Nat.exists_eq_add_of_le' hplace
  rw [List.splitOn_append_cons_self_of_not_mem hline, Place.below_line, hk, Nat.add_sub_cancel,
    List.getElem?_cons_succ] at hown
  refine ⟨hplace, hcol, own, ?_, hle⟩
  rw [hk, Nat.add_sub_cancel]
  exact hown

/-- A place of the first line is in front of the end of this line, or at it. -/
theorem Place.IsIn.le_first (hline : '\n' ∉ line) (hrest : ∀ c ∈ rest.head?, c = '\n') {col : Nat}
    (h : (Place.mk 1 col).IsIn (line ++ rest)) : col - 1 ≤ line.length := by
  obtain ⟨-, -, own, hown, hle⟩ := h
  cases rest with
  | nil =>
    rw [List.append_nil, List.splitOn_eq_singleton hline] at hown
    rw [Option.some.inj hown]
    exact hle
  | cons c rest =>
    rw [hrest c rfl, List.splitOn_append_cons_self_of_not_mem hline] at hown
    rw [Option.some.inj hown]
    exact hle

end

/-! ### Offsets and places -/

section

variable {cs : List Char} {pos : Nat}

/-- The place of an offset is in the text, for the line around the offset is there. -/
theorem placeAfter_isIn (hpos : pos ≤ cs.length) : (placeAfter (cs.take pos)).IsIn cs := by
  rw [placeAfter_eq]
  refine ⟨Nat.le_add_left _ _, Nat.le_add_left _ _, Text.lineAround cs pos, Text.getElem?_splitOn hpos, ?_⟩
  rw [Text.lineAround, List.length_append, Nat.add_sub_cancel]
  exact Nat.le_add_right _ _

/-- **The place of an offset has this offset.** -/
theorem offsetIn_placeAfter (hpos : pos ≤ cs.length) : (placeAfter (cs.take pos)).offsetIn cs = pos := by
  induction cs using Text.lines_induction generalizing pos with
  | last line hline =>
    have hplace := placeAfter_first hline [] hpos
    rw [List.append_nil] at hplace
    rw [hplace, Place.offsetIn_first, Nat.add_sub_cancel]
  | cons line rest hline ih =>
    rcases Nat.lt_or_ge line.length pos with hlt | hge
    · obtain ⟨n, rfl⟩ := Nat.exists_eq_add_of_lt hlt
      have hn : n ≤ rest.length := by
        rw [List.length_append, List.length_cons] at hpos
        omega
      rw [Nat.add_assoc, placeAfter_further hline,
        Place.offsetIn_below hline (placeAfter_isIn hn).line_pos, ih hn]
    · rw [placeAfter_first hline _ hge, Place.offsetIn_first, Nat.add_sub_cancel]

/-- The offset of a place in the first line. -/
theorem placeAfter_offsetIn_first {line rest : List Char} {col : Nat} (hline : '\n' ∉ line)
    (hrest : ∀ c ∈ rest.head?, c = '\n') (h : (Place.mk 1 col).IsIn (line ++ rest)) :
    (Place.mk 1 col).offsetIn (line ++ rest) ≤ (line ++ rest).length ∧
      placeAfter ((line ++ rest).take ((Place.mk 1 col).offsetIn (line ++ rest))) = ⟨1, col⟩ := by
  have hle := h.le_first hline hrest
  have hcol : col - 1 + 1 = col := Nat.sub_add_cancel h.col_pos
  rw [Place.offsetIn_first, placeAfter_first hline rest hle, hcol, List.length_append]
  exact ⟨Nat.le_add_right_of_le hle, rfl⟩

/-- **The offset of a place in a text has this place.** -/
theorem placeAfter_offsetIn {place : Place} (h : place.IsIn cs) :
    place.offsetIn cs ≤ cs.length ∧ placeAfter (cs.take (place.offsetIn cs)) = place := by
  induction cs using Text.lines_induction generalizing place with
  | last line hline =>
    have hfirst : place.line = 1 := by
      obtain ⟨hpos, -, own, hown, -⟩ := h
      obtain ⟨hlt, -⟩ := List.getElem?_eq_some_iff.1 hown
      rw [List.splitOn_eq_singleton hline, List.length_singleton] at hlt
      omega
    obtain ⟨number, col⟩ := place
    obtain rfl : number = 1 := hfirst
    have hnone : ∀ c ∈ ([] : List Char).head?, c = '\n' := fun c hc => by cases hc
    rw [← List.append_nil line] at h ⊢
    exact placeAfter_offsetIn_first hline hnone h
  | cons line rest hline ih =>
    obtain ⟨number, col⟩ := place
    obtain ⟨k, rfl⟩ := Nat.exists_eq_add_of_le' h.line_pos
    cases k with
    | zero => exact placeAfter_offsetIn_first hline (fun c hc => (Option.some.inj hc).symm) h
    | succ k =>
      -- the place in the rest of the text, which is one line above
      have hpos : 1 ≤ (Place.mk (k + 1) col).line := Nat.le_add_left _ _
      obtain ⟨hle, hplace⟩ := ih (.of_below hline hpos h)
      have hoffset : (Place.mk (k + 1 + 1) col).offsetIn (line ++ '\n' :: rest)
          = line.length + ((Place.mk (k + 1) col).offsetIn rest + 1) := Place.offsetIn_below hline hpos
      rw [hoffset, placeAfter_further hline, hplace, List.length_append, List.length_cons]
      exact ⟨Nat.add_le_add_left (Nat.succ_le_succ hle) _, rfl⟩

/-- The rank of a place: by line first and then by column. -/
def Place.rank (place : Place) : ℕ ×ₗ ℕ := toLex (place.line, place.col)

theorem Place.rank_lt_iff {place place' : Place} :
    place.rank < place'.rank ↔
      place.line ≤ place'.line ∧ (place.line = place'.line → place.col < place'.col) :=
  Prod.Lex.toLex_lt_toLex'

/-- **A greater offset has a later place.** -/
theorem rank_placeAfter_lt {pos' : Nat} (h : pos < pos') (hpos' : pos' ≤ cs.length) :
    (placeAfter (cs.take pos)).rank < (placeAfter (cs.take pos')).rank := by
  have hoffset := offsetIn_placeAfter (Nat.le_trans (Nat.le_of_lt h) hpos')
  have hoffset' := offsetIn_placeAfter hpos'
  have hcol := (placeAfter_isIn hpos').col_pos
  refine Place.rank_lt_iff.2 ⟨?_, fun hline => ?_⟩
  · exact Nat.succ_le_succ ((List.take_sublist_take_left (Nat.le_of_lt h)).count_le '\n')
  · -- in one line the offset grows with the column alone
    rw [Place.offsetIn, hline] at hoffset
    rw [Place.offsetIn] at hoffset'
    omega

end

/-! ### Places of a source -/

/-- Offsets outside the text have the place of its nearer end. -/
theorem placeOf_nearest (source : String) (pos : Int) :
    placeOf source pos = placeAfter (source.toList.take (min pos.toNat source.toList.length)) := by
  rw [placeOf, List.take_eq_take_min]

/-- **Offsets within a text and places in it determine each other.**  The place of an offset is in the text, and
the lines above it and the columns in front add up to the offset; every place in the text is the place of one
offset; and a greater offset has a later place. -/
theorem placeOf_invertible (source : String) :
    (∀ pos : Int, (placeOf source pos).IsIn source.toList ∧
        ((placeOf source pos).offsetIn source.toList : Int) = max 0 (min pos source.length)) ∧
      (∀ place : Place, place.IsIn source.toList →
        place.offsetIn source.toList ≤ source.length ∧
          placeOf source (place.offsetIn source.toList) = place) ∧
      Set.InjOn (fun pos : Nat => placeOf source pos) (Set.Iic source.length) ∧
      StrictMonoOn (fun pos : Nat => (placeOf source pos).rank) (Set.Iic source.length) := by
  have hmono : StrictMonoOn (fun pos : Nat => (placeOf source pos).rank) (Set.Iic source.length) :=
    fun pos _ pos' hle hlt => rank_placeAfter_lt hlt (String.length_toList.symm ▸ hle)
  refine ⟨fun pos => ?_, fun place hplace => ?_, fun pos hpos pos' hpos' heq => ?_, hmono⟩
  · have hinside := Nat.min_le_right pos.toNat source.toList.length
    rw [placeOf_nearest, offsetIn_placeAfter hinside, String.length_toList]
    exact ⟨placeAfter_isIn (String.length_toList ▸ hinside), by omega⟩
  · obtain ⟨hle, hsame⟩ := placeAfter_offsetIn hplace
    rw [placeOf, Int.toNat_natCast]
    exact ⟨String.length_toList ▸ hle, hsame⟩
  · exact hmono.injOn hpos hpos' (congrArg Place.rank heq)

/-- An empty line in between: at its end, behind it and beyond the text. -/
theorem placeOf_invertible_emptyLine :
    placeOf "a\n\nb" 9 = ⟨3, 2⟩ ∧ (Place.mk 3 2).offsetIn "a\n\nb".toList = 4 ∧
      placeOf "a\n\nb" ((Place.mk 2 1).offsetIn "a\n\nb".toList) = ⟨2, 1⟩ ∧
      (placeOf "a\n\nb" (2 : Nat)).rank < (placeOf "a\n\nb" (3 : Nat)).rank := by
  obtain ⟨hplaces, hoffsets, -, hmono⟩ := placeOf_invertible "a\n\nb"
  have hlast : placeOf "a\n\nb" 9 = ⟨3, 2⟩ := by decide
  have hoffset := (hplaces 9).2
  rw [hlast] at hoffset
  have hempty : (Place.mk 2 1).IsIn "a\n\nb".toList := ⟨by decide, by decide, [], by decide, by decide⟩
  have htwo : 2 ≤ "a\n\nb".length := by decide
  have hthree : 3 ≤ "a\n\nb".length := by decide
  exact ⟨hlast, Int.ofNat_inj.1 (hoffset.trans (by decide)), (hoffsets _ hempty).2,
    hmono htwo hthree (by decide)⟩

end Klex
