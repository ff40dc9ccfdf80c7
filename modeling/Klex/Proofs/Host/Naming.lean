import Klex.Host.Naming
import Klex.Proofs.Token.Identifier

/-!
# Names that scripts can write

* **`Host.MethodName`** — a name of ASCII letters, digits and underscores in which a letter comes first,
  underscores in front aside.
* **`Text.uppercase_alphanum`** — the capital of an ASCII letter or digit is one as well.
* **`Host.MethodName.word`** — **scripts see such a method under a word**, a letter and then letters and
  digits.
* **`Host.camelCase_word`** — a word is its own name for scripts.
-/

namespace Klex

/-! ### Capitals -/

namespace Text

theorem isAlphanum_iff {c : Char} : c.isAlphanum = true ↔
    65 ≤ c.toNat ∧ c.toNat ≤ 90 ∨ 97 ≤ c.toNat ∧ c.toNat ≤ 122 ∨ 48 ≤ c.toNat ∧ c.toNat ≤ 57 := by
  have hupper : c.isUpper = true ↔ 65 ≤ c.toNat ∧ c.toNat ≤ 90 :=
    decide_eq_true_iff.trans (and_congr UInt32.le_iff_toNat_le UInt32.le_iff_toNat_le)
  have hrange : ∀ low high : UInt32, (decide (c.val ≥ low) && decide (c.val ≤ high)) = true ↔
      low.toNat ≤ c.toNat ∧ c.toNat ≤ high.toNat := by
    intro low high
    simp [UInt32.le_iff_toNat_le]
  show ((c.isUpper || c.isLower) || c.isDigit) = true ↔ _
  rw [Bool.or_eq_true, Bool.or_eq_true, or_assoc]
  exact or_congr hupper (or_congr (hrange 97 122) (hrange 48 57))

/-- No character of ASCII becomes longer. -/
theorem lookup_expansions {n : Nat} (hn : n < 128) : uppercaseExpansions.lookup n = none := by
  have hlarge : ∀ p ∈ uppercaseExpansions, 128 ≤ p.1 := by decide +kernel
  rw [List.lookup_eq_none_iff]
  intro p hp
  have hle := hlarge p hp
  exact bne_iff_ne.2 (by omega)

/-- A character below the small letters is its own capital. -/
theorem uppercase_of_lt {c : Char} (hc : c.toNat < 97) : uppercase c = [c] := by
  have hlarge : ∀ r ∈ uppercaseShifts, 97 ≤ r.first := by decide +kernel
  have hnone : uppercaseShifts.find? (·.covers c.toNat) = none := by
    rw [List.find?_eq_none]
    intro r hr hcovers
    have hle := hlarge r hr
    simp only [Shift.covers, Bool.and_eq_true, decide_eq_true_eq] at hcovers
    omega
  simp only [uppercase, lookup_expansions (Nat.lt_trans hc (by decide)), hnone]

/-- A small letter moves to the large one. -/
theorem uppercase_of_small {c : Char} (hlow : 97 ≤ c.toNat) (hhigh : c.toNat ≤ 122) :
    uppercase c = [Char.ofNat (c.toNat - 32)] := by
  have hfind : uppercaseShifts.find? (·.covers c.toNat) = some ⟨0x61, 0x7A, 1, -32⟩ := by
    have hcovers : Shift.covers ⟨0x61, 0x7A, 1, -32⟩ c.toNat = true := by
      simp [Shift.covers, hlow, hhigh, Nat.mod_one]
    rw [uppercaseShifts, List.find?_cons, hcovers]
  have hdistance : ((c.toNat : Int) + -32).toNat = c.toNat - 32 := by omega
  simp only [uppercase, lookup_expansions (Nat.lt_of_le_of_lt hhigh (by decide)), hfind, Shift.apply,
    hdistance]

/-- **The capital of an ASCII letter or digit is one as well.** -/
theorem uppercase_alphanum {c : Char} (hc : c.isAlphanum = true) :
    ∃ d, uppercase c = [d] ∧ d.isAlphanum = true := by
  by_cases hsmall : c.toNat < 97
  · exact ⟨c, uppercase_of_lt hsmall, hc⟩
  · rw [isAlphanum_iff] at hc
    refine ⟨_, uppercase_of_small (by omega) (by omega), ?_⟩
    have hvalid : (c.toNat - 32).isValidChar := .inl (by omega)
    have hmoved : (Char.ofNat (c.toNat - 32)).toNat = c.toNat - 32 := by
      rw [Char.ofNat, dif_pos hvalid]
      rfl
    rw [isAlphanum_iff, hmoved]
    omega

end Text

namespace Host

/-! ### Method names and words -/

/-- ASCII letters, digits and underscores, with a letter first behind underscores at the front. -/
structure MethodName (name : String) : Prop where
  chars : ∀ c ∈ name.toList, c.isAlphanum = true ∨ c = '_'
  begins : (name.toList.dropWhile (· == '_')).head?.any Char.isAlpha = true

instance (name : String) : Decidable (MethodName name) :=
  decidable_of_iff (name.toList.all (fun c => c.isAlphanum || c == '_') = true ∧
      (name.toList.dropWhile (· == '_')).head?.any Char.isAlpha = true)
    ⟨fun h => ⟨by simpa using h.1, h.2⟩, fun h => ⟨by simpa using h.chars, h.begins⟩⟩

theorem ne_underscore {c : Char} (hc : c.isAlphanum = true) : c ≠ '_' := by
  rintro rfl
  exact absurd hc (by decide)

/-- What the words of a name are joined to has letters and digits only. -/
theorem joinWords_alphanum {cs : List Char} (hcs : ∀ c ∈ cs, c.isAlphanum = true ∨ c = '_')
    (capital : Bool) : ∀ c ∈ joinWords capital cs, c.isAlphanum = true := by
  induction cs generalizing capital with
  | nil => simp [joinWords]
  | cons c cs ih =>
    obtain ⟨hc, hcs⟩ := List.forall_mem_cons.1 hcs
    rw [joinWords]
    by_cases hscore : c = '_'
    · rw [if_pos hscore]
      exact ih hcs true
    · rw [if_neg hscore]
      have hc := hc.resolve_right hscore
      refine List.forall_mem_append.2 ⟨?_, ih hcs false⟩
      by_cases hcapital : capital = true
      · obtain ⟨d, hd, halphanum⟩ := Text.uppercase_alphanum hc
        rw [if_pos hcapital, hd]
        exact List.forall_mem_singleton.2 halphanum
      · rw [if_neg hcapital]
        exact List.forall_mem_singleton.2 hc

/-- Joining leaves a name in one word as it is. -/
theorem joinWords_word {cs : List Char} (hcs : ∀ c ∈ cs, c.isAlphanum = true) :
    joinWords false cs = cs := by
  induction cs with
  | nil => rfl
  | cons c cs ih =>
    obtain ⟨hc, hcs⟩ := List.forall_mem_cons.1 hcs
    rw [joinWords, if_neg (ne_underscore hc), ih hcs]
    rfl

theorem camelCase_toList (name : String) :
    (camelCase name).toList = joinWords false (name.toList.dropWhile (· == '_')) :=
  String.toList_ofList

/-- **Scripts see a method under a word.** -/
theorem MethodName.word {name : String} (h : MethodName name) : Token.Word (camelCase name) := by
  have hrest : ∀ c ∈ name.toList.dropWhile (· == '_'), c.isAlphanum = true ∨ c = '_' :=
    fun c hc => h.chars c ((List.dropWhile_suffix _).subset hc)
  refine ⟨?_, ?_⟩
  · rw [camelCase_toList]
    exact joinWords_alphanum hrest false
  · rw [camelCase_toList]
    have hbegins := h.begins
    cases hcs : name.toList.dropWhile (· == '_') with
    | nil => simp [hcs] at hbegins
    | cons c cs =>
      rw [hcs, List.head?_cons, Option.any_some] at hbegins
      have hc : c.isAlphanum = true := by rw [Char.isAlphanum, hbegins, Bool.true_or]
      rw [joinWords, if_neg (ne_underscore hc)]
      exact hbegins

/-- **A word is its own name for scripts.** -/
theorem camelCase_word {key : String} (h : Token.Word key) : camelCase key = key := by
  have hfront : key.toList.dropWhile (· == '_') = key.toList := by
    cases hcs : key.toList with
    | nil => rfl
    | cons c cs =>
      have hc : c ≠ '_' := ne_underscore (h.chars c (by rw [hcs]; exact List.mem_cons_self))
      exact List.dropWhile_cons_of_neg (by simpa using hc)
  rw [camelCase, hfront, joinWords_word h.chars, String.ofList_toList]

/-- No character of a word is an underscore. -/
theorem no_underscore {key : String} (h : Token.Word key) : '_' ∉ key.toList :=
  fun hmem => ne_underscore (h.chars _ hmem) rfl

end Host

end Klex
