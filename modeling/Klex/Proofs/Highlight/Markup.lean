import Klex.Proofs.Token.Tiling

/-!
# Markup

A text in colour is HTML, and may itself look like HTML.

* **`Tag`** — the tags that highlighting makes; **`Tag.at?`** finds the one at the start of a text.
* **`tagsOf`**, **`withoutTags`** — the tags in a text, and what is left without them.
* **`decodeHtml`** — undoes the escapes of characters, in one pass.
* **`Marked`** — a text in which only tags have an opening bracket, with its tags and the rest of it; it is
  made piece by piece by `Marked.plain` and `Marked.tag`.
* **`flatMap_escapeHtml`**, **`decodeHtml_escaped`** — escaping in one pass is replacing three characters in
  order, and decoding undoes it.
* **`highlightHtml_lossless`** — **every opening bracket in the HTML of a text is that of a tag, the tags come
  in pairs, and without them the HTML decodes to the text.**
-/

namespace Klex

/-! ### Tags -/

/-- A tag that highlighting makes. -/
inductive Tag where
  | opening (color : String)
  | closing
  deriving DecidableEq, Repr

namespace Tag

/-- The text of a tag. -/
def chars : Tag → List Char
  | opening color => ("<span style=\"color: " ++ color ++ ";\">").toList
  | closing => "</span>".toList

/-- The tags with the colours of the language. -/
def all : List Tag := closing :: Lexicon.standard.colors.map fun entry => opening entry.2

/-- The tag at the start of a text. -/
def at? (cs : List Char) : Option Tag := all.find? fun tag => tag.chars.isPrefixOf cs

end Tag

/-- The tags in a text, from left to right. -/
def tagsOf : List Char → List Tag
  | [] => []
  | c :: cs => (Tag.at? (c :: cs)).toList ++ tagsOf cs

/-- A text without its tags, where the first characters may be the rest of a tag. -/
def withoutTagsAfter : Nat → List Char → List Char
  | _, [] => []
  | 0, c :: cs =>
    match Tag.at? (c :: cs) with
    | some tag => withoutTagsAfter (tag.chars.length - 1) cs
    | none => c :: withoutTagsAfter 0 cs
  | n + 1, _ :: cs => withoutTagsAfter n cs

/-- A text without its tags. -/
def withoutTags (cs : List Char) : List Char := withoutTagsAfter 0 cs

/-- Undoes the escapes of characters, from left to right. -/
def decodeHtml : List Char → List Char
  | '&' :: 'l' :: 't' :: ';' :: cs => '<' :: decodeHtml cs
  | '&' :: 'g' :: 't' :: ';' :: cs => '>' :: decodeHtml cs
  | '&' :: 'a' :: 'm' :: 'p' :: ';' :: cs => '&' :: decodeHtml cs
  | c :: cs => c :: decodeHtml cs
  | [] => []

namespace Tag

/-- A tag has one opening bracket, which it begins with. -/
theorem chars_eq {tag : Tag} (h : tag ∈ all) : ∃ inner, tag.chars = '<' :: inner ∧ '<' ∉ inner := by
  have hall : ∀ tag ∈ all, tag.chars.head? = some '<' ∧ '<' ∉ tag.chars.tail := by decide
  obtain ⟨hhead, htail⟩ := hall tag h
  obtain ⟨inner, hinner⟩ := List.head?_eq_some_iff.1 hhead
  rw [hinner] at htail
  exact ⟨inner, hinner, htail⟩

/-- **No tag goes on as another.** -/
theorem at?_append {tag : Tag} (h : tag ∈ all) (rest : List Char) : at? (tag.chars ++ rest) = some tag := by
  have hprefix : tag.chars <+: tag.chars ++ rest := List.prefix_append _ _
  have hsome : (at? (tag.chars ++ rest)).isSome = true :=
    List.find?_isSome.2 ⟨tag, h, List.isPrefixOf_iff_prefix.2 hprefix⟩
  obtain ⟨other, hother⟩ := Option.isSome_iff_exists.1 hsome
  have hmem : other ∈ all := List.mem_of_find?_eq_some hother
  have hfound := List.find?_some (p := fun other : Tag => other.chars.isPrefixOf (tag.chars ++ rest)) hother
  have hfits : other.chars <+: tag.chars ++ rest := List.isPrefixOf_iff_prefix.1 hfound
  have hapart : ∀ tag ∈ all, ∀ other ∈ all, tag.chars <+: other.chars → tag = other := by decide
  rw [hother]
  rcases List.prefix_or_prefix_of_prefix hfits hprefix with hle | hle
  · rw [hapart other hmem tag h hle]
  · rw [hapart tag h other hmem hle]

theorem at?_of_ne {c : Char} (hc : c ≠ '<') (cs : List Char) : at? (c :: cs) = none := by
  rw [at?, List.find?_eq_none]
  intro tag htag hprefix
  obtain ⟨inner, hchars, -⟩ := chars_eq htag
  rw [hchars] at hprefix
  exact hc (List.cons_prefix_cons.1 (List.isPrefixOf_iff_prefix.1 hprefix)).1.symm

end Tag

/-! ### Marked texts -/

theorem tagsOf_append {cs : List Char} (hcs : '<' ∉ cs) (rest : List Char) :
    tagsOf (cs ++ rest) = tagsOf rest := by
  induction cs with
  | nil => rfl
  | cons c cs ih =>
    have hc : '<' ≠ c := List.ne_of_not_mem_cons hcs
    rw [List.cons_append, tagsOf, Tag.at?_of_ne hc.symm, ih (List.not_mem_of_not_mem_cons hcs)]
    rfl

theorem withoutTags_append {cs : List Char} (hcs : '<' ∉ cs) (rest : List Char) :
    withoutTags (cs ++ rest) = cs ++ withoutTags rest := by
  induction cs with
  | nil => rfl
  | cons c cs ih =>
    have hc : '<' ≠ c := List.ne_of_not_mem_cons hcs
    have hothers := ih (List.not_mem_of_not_mem_cons hcs)
    rw [withoutTags] at hothers ⊢
    rw [List.cons_append, withoutTagsAfter, Tag.at?_of_ne hc.symm]
    exact congrArg (c :: ·) hothers

theorem withoutTagsAfter_append (cs rest : List Char) :
    withoutTagsAfter cs.length (cs ++ rest) = withoutTags rest := by
  induction cs with
  | nil => rfl
  | cons c cs ih => exact ih

/-- A text with given tags and a given rest, in which only tags have an opening bracket. -/
structure Marked (html : List Char) (tags : List Tag) (body : List Char) : Prop where
  bracket : ∀ i, html[i]? = some '<' → ∃ tag ∈ Tag.all, tag.chars <+: html.drop i
  tags : tagsOf html = tags
  body : withoutTags html = body

namespace Marked

variable {html body : List Char} {tags : List Tag}

theorem nil : Marked [] [] [] where
  bracket _ h := by cases h
  tags := rfl
  body := rfl

/-- Where the front part has no opening bracket the others move along. -/
theorem bracket_append (hhtml : Marked html tags body) {cs : List Char} (hcs : '<' ∉ cs) (i : Nat)
    (h : (cs ++ html)[i]? = some '<') : ∃ tag ∈ Tag.all, tag.chars <+: (cs ++ html).drop i := by
  rcases Nat.lt_or_ge i cs.length with hlt | hge
  · rw [List.getElem?_append_left hlt] at h
    exact absurd (List.mem_of_getElem? h) hcs
  · rw [List.getElem?_append_right hge] at h
    obtain ⟨j, rfl⟩ := Nat.exists_eq_add_of_le hge
    rw [Nat.add_sub_cancel_left] at h
    rw [List.drop_length_add_append]
    exact hhtml.bracket j h

/-- Text without an opening bracket in front. -/
theorem plain (hhtml : Marked html tags body) {cs : List Char} (hcs : '<' ∉ cs) :
    Marked (cs ++ html) tags (cs ++ body) where
  bracket := hhtml.bracket_append hcs
  tags := (tagsOf_append hcs html).trans hhtml.tags
  body := by rw [withoutTags_append hcs, hhtml.body]

/-- A tag in front. -/
theorem tag (hhtml : Marked html tags body) {tag : Tag} (htag : tag ∈ Tag.all) :
    Marked (tag.chars ++ html) (tag :: tags) body := by
  have hat := Tag.at?_append htag html
  obtain ⟨inner, hchars, hinner⟩ := Tag.chars_eq htag
  rw [hchars, List.cons_append] at hat
  constructor
  · intro i h
    rw [hchars] at h ⊢
    cases i with
    | zero =>
      refine ⟨tag, htag, ?_⟩
      rw [hchars]
      exact List.prefix_append _ _
    | succ i => exact hhtml.bracket_append hinner i h
  · rw [hchars, List.cons_append, tagsOf, hat, tagsOf_append hinner, hhtml.tags]
    rfl
  · rw [hchars, List.cons_append, withoutTags, withoutTagsAfter, hat]
    show withoutTagsAfter (tag.chars.length - 1) (inner ++ html) = body
    rw [hchars, List.length_cons, Nat.add_sub_cancel, withoutTagsAfter_append, hhtml.body]

end Marked

/-! ### Escapes -/

/-- Another text for one character. -/
def replaceChar (c : Char) (text : String) (x : Char) : List Char := if x = c then text.toList else [x]

/-- Escapes have no opening bracket. -/
theorem not_mem_escapeHtml (cs : List Char) : '<' ∉ cs.flatMap escapeHtml := by
  rw [List.mem_flatMap]
  rintro ⟨c, -, hc⟩
  rw [escapeHtml] at hc
  split at hc
  · exact absurd hc (by decide)
  · split at hc
    · exact absurd hc (by decide)
    · next hopen =>
      split at hc
      · exact absurd hc (by decide)
      · exact hopen (List.mem_singleton.1 hc).symm

/-- **One pass of escapes is the same as replacing the three characters one after the other.** -/
theorem flatMap_escapeHtml (cs : List Char) :
    cs.flatMap escapeHtml
      = ((cs.flatMap (replaceChar '&' "&amp;")).flatMap (replaceChar '<' "&lt;")).flatMap
          (replaceChar '>' "&gt;") := by
  rw [List.flatMap_assoc, List.flatMap_assoc]
  refine congrArg (cs.flatMap ·) (funext fun c => ?_)
  by_cases hamp : c = '&'
  · subst hamp
    rfl
  · by_cases hopen : c = '<'
    · subst hopen
      rfl
    · simp [escapeHtml, replaceChar, hamp, hopen]

theorem decodeHtml_cons {c : Char} (hc : c ≠ '&') (cs : List Char) :
    decodeHtml (c :: cs) = c :: decodeHtml cs := by
  rw [decodeHtml]
  all_goals
    intro rest hamp
    exact absurd hamp hc

/-- **Decoding undoes escaping.** -/
theorem decodeHtml_escaped (cs : List Char) : decodeHtml (cs.flatMap escapeHtml) = cs := by
  induction cs with
  | nil => rfl
  | cons c cs ih =>
    rw [List.flatMap_cons, escapeHtml]
    by_cases hamp : c = '&'
    · subst hamp
      exact congrArg ('&' :: ·) ih
    · by_cases hopen : c = '<'
      · subst hopen
        exact congrArg ('<' :: ·) ih
      · by_cases hclose : c = '>'
        · subst hclose
          exact congrArg ('>' :: ·) ih
        · rw [if_neg hamp, if_neg hopen, if_neg hclose, List.singleton_append, decodeHtml_cons hamp, ih]

-- an escape in the text is escaped itself, and decoded once
example : "&lt;".toList.flatMap escapeHtml = "&amp;lt;".toList
    ∧ decodeHtml "&amp;lt;".toList = "&lt;".toList := by decide

/-! ### Spans -/

/-- Tokens have no colours but those of the lexicon. -/
theorem Token.color_of_make {lex : Lexicon} {kind : Kind} {text : String} {pos : Nat} {value : Literal}
    {named : kind.isNamed = true → value.isText = true} {t : Token}
    (h : make lex kind text pos value named = .ok t) :
    ∀ color ∈ t.color, color ∈ lex.colors.map Prod.snd := by
  intro color hcolor
  cases hfound : lex.colorOf kind text with
  | error fault =>
    rw [make, hfound] at h
    cases h
  | ok found =>
    rw [make, hfound] at h
    cases h
    obtain rfl : found = some color := hcolor
    rw [Lexicon.colorOf] at hfound
    split at hfound
    · cases hfound
    · next c hclass =>
      split at hfound
      · next hlookup =>
        cases hfound
        obtain ⟨before, after, heq, -⟩ := List.lookup_eq_some_iff.1 hlookup
        rw [heq]
        simp
      · cases hfound

/-- **The spans of a text make it up, and have no colours but those of the language.** -/
theorem highlight_spans (source : String) :
    (highlight source).flatMap (fun span => span.text.toList) = source.toList ∧
      ∀ span ∈ highlight source, ∀ color ∈ span.color, .opening color ∈ Tag.all := by
  obtain ⟨tokens, htokens⟩ := tokenize_tolerant source
  have hspans : highlight source = tokens.map Span.ofToken := by rw [highlight, htokens]
  rw [hspans]
  constructor
  · have hjoined := congrArg String.toList (tokenize_tiles htokens).joined
    rw [String.toList_join, List.flatMap_map] at hjoined
    rw [List.flatMap_map]
    exact hjoined
  · intro span hspan color hcolor
    obtain ⟨t, ht, rfl⟩ := List.mem_map.1 hspan
    obtain ⟨piece, -, hpiece⟩ := Token.ofPiece_of_mem htokens ht
    obtain ⟨kind, value, named, made, hmake, hmade⟩ := Token.ofPiece_made hpiece
    have hsame : made.color = t.color := by rcases hmade with rfl | rfl <;> rfl
    have hmem := Token.color_of_make hmake color (hsame ▸ hcolor)
    obtain ⟨entry, hentry, rfl⟩ := List.mem_map.1 hmem
    exact List.mem_cons_of_mem _ (List.mem_map.2 ⟨entry, hentry, rfl⟩)

/-- **Spans are marked one by one.** -/
theorem marked_spans {spans : List Span}
    (hspans : ∀ span ∈ spans, ∀ color ∈ span.color, .opening color ∈ Tag.all) :
    Marked (spans.flatMap Span.toHtml)
      ((spans.filterMap Span.color).flatMap fun color => [.opening color, .closing])
      ((spans.flatMap fun span => span.text.toList).flatMap escapeHtml) := by
  induction spans with
  | nil => exact .nil
  | cons span spans ih =>
    obtain ⟨hspan, hothers⟩ := List.forall_mem_cons.1 hspans
    have hplain := not_mem_escapeHtml span.text.toList
    have hrest := ih hothers
    rw [List.flatMap_cons, List.flatMap_cons, List.flatMap_append, Span.toHtml]
    cases hcolor : span.color with
    | none =>
      rw [List.filterMap_cons_none hcolor]
      exact hrest.plain hplain
    | some color =>
      have hclosing : Tag.closing ∈ Tag.all := List.mem_cons_self
      have hopening : Tag.opening color ∈ Tag.all := hspan color hcolor
      have hmarked := ((hrest.tag hclosing).plain hplain).tag hopening
      rw [List.filterMap_cons_some hcolor]
      simp only [List.append_assoc]
      exact hmarked

/-- **HTML loses nothing and lets nothing in.**  Every opening bracket in the HTML of a text is that of a tag
with a colour of the language, or of one that closes it; the tags come in pairs, one for each coloured span;
and without them the HTML decodes to the text. -/
theorem highlightHtml_lossless (source : String) :
    (∀ i, (highlightHtml source).toList[i]? = some '<' →
        ∃ tag ∈ Tag.all, tag.chars <+: (highlightHtml source).toList.drop i) ∧
      tagsOf (highlightHtml source).toList
        = ((highlight source).filterMap Span.color).flatMap (fun color => [.opening color, .closing]) ∧
      decodeHtml (withoutTags (highlightHtml source).toList) = source.toList := by
  obtain ⟨htext, hcolors⟩ := highlight_spans source
  have hmarked := marked_spans hcolors
  rw [htext] at hmarked
  rw [highlightHtml, String.toList_ofList]
  refine ⟨hmarked.bracket, hmarked.tags, ?_⟩
  rw [hmarked.body, decodeHtml_escaped]

end Klex
