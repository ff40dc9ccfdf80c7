import Klex.Proofs.Evaluator.Resumption
import Klex.Proofs.Grammar.Completeness
import Klex.Proofs.Token.Delimiter

/-!
# Texts written as literals

A text that is shown as a literal can be read back, wherever the literal stands.  Three parts have to fit
together: how the literal is written, where it ends in a longer text, and how it is decoded.

* **`Shape.stringEnd?_escaped`** — the escapes leave no delimiter in the body that would end the literal.
* **`Token.decodeBody_escaped`** — decoding undoes the escapes.
* **`Token.Quotes`** — a token is the literal of a text.
* **`cut_displayString`** — in front of any text the literal is cut off as a piece of its own.
* **`displayString_read`** — **a text that is written as a literal is read back: by the tokens in front of
  any other text, by strict tokens, and by running the literal as a script.**
-/

namespace Klex

/-! ### Escapes -/

/-- The characters that are escaped are the backslash and the delimiter. -/
theorem escapeInString_eq (c : Char) :
    escapeInString c = if c = '\\' ∨ c = '"' then ['\\', c] else [c] := by
  simp [escapeInString]

/-- **The literal ends behind its body**, whatever follows. -/
theorem Shape.stringEnd?_escaped (cs rest : List Char) :
    stringEnd? '"' (cs.flatMap escapeInString ++ '"' :: rest)
      = some ((cs.flatMap escapeInString).length + 1) := by
  induction cs with
  | nil => rfl
  | cons c cs ih =>
    rw [List.flatMap_cons, escapeInString_eq, List.append_assoc, List.length_append]
    by_cases hc : c = '\\' ∨ c = '"'
    · -- both characters are taken at once
      rw [if_pos hc, List.cons_append, List.singleton_append, stringEnd?, if_pos (by simpa using hc), ih,
        Option.map_some, List.length_cons, List.length_singleton]
      exact congrArg some (by omega)
    · obtain ⟨hslash, hquote⟩ := not_or.1 hc
      rw [if_neg hc, List.singleton_append, stringEnd?, if_neg hquote, ih, Option.map_some,
        List.length_singleton]
      · exact congrArg some (by omega)
      · exact fun c' cs' h => absurd h hslash

/-- **Decoding undoes the escapes.** -/
theorem Token.decodeBody_escaped (cs : List Char) :
    decodeBody '"' (cs.flatMap escapeInString) = cs := by
  induction cs with
  | nil => rfl
  | cons c cs ih =>
    rw [List.flatMap_cons, escapeInString_eq]
    by_cases hc : c = '\\' ∨ c = '"'
    · rw [if_pos hc]
      have hdecode : decodeBody '"' ('\\' :: c :: cs.flatMap escapeInString)
          = c :: decodeBody '"' (cs.flatMap escapeInString) := by
        rw [decodeBody, if_pos (by simpa using hc)]
      exact hdecode.trans (congrArg (c :: ·) ih)
    · rw [if_neg hc]
      exact (decodeBody_cons (not_or.1 hc).1 _).trans (congrArg (c :: ·) ih)

theorem displayString_toList (s : String) :
    (displayString s).toList = '"' :: (s.toList.flatMap escapeInString ++ ['"']) := by
  rw [displayString, String.toList_ofList]
  rfl

theorem Token.decodeString_displayString (s : String) :
    decodeString (displayString s).toList = s.toList := by
  rw [displayString_toList, decodeString, List.dropLast_concat, decodeBody_escaped]

/-! ### Tokens -/

/-- The token is the literal of a text, at the start. -/
structure Token.Quotes (t : Token) (s : String) : Prop where
  kind : t.kind = .string
  text : t.text = (Value.text s).display
  pos : t.pos = 0
  value : t.value = .text s

theorem Token.ofPiece_displayString (mode : Mode) (s : String) :
    ∃ t, ofPiece .standard mode ⟨.string, (displayString s).toList⟩ 0 = .ok t ∧ t.Quotes s := by
  obtain ⟨color, hmake⟩ := make_standard .string (displayString s) 0 (.text s) (Kind.unnamed rfl)
  have hpiece : ofPiece .standard mode ⟨.string, (displayString s).toList⟩ 0
      = make .standard .string (String.ofList (displayString s).toList) 0
        (.text (String.ofList (decodeString (displayString s).toList))) (Kind.unnamed rfl) := by rw [ofPiece]
  rw [decodeString_displayString, String.ofList_toList, String.ofList_toList] at hpiece
  exact ⟨_, hpiece.trans hmake, rfl, rfl, rfl, rfl⟩

/-- **In front of any text the literal is cut off as a piece of its own.** -/
theorem cut_displayString (s : String) (rest : List Char) :
    cut ((displayString s).toList ++ rest) = ⟨.string, (displayString s).toList⟩ :: cut rest := by
  have hne : (displayString s).toList ≠ [] := by
    rw [displayString_toList]
    exact List.cons_ne_nil _ _
  have hfirst : Shape.first ((displayString s).toList ++ rest)
      = (.string, (displayString s).toList.length) := by
    have hscan := Shape.stringEnd?_escaped s.toList rest
    rw [displayString_toList, List.cons_append, List.append_assoc, List.singleton_append,
      Shape.first_delimiter (by decide), hscan]
    simp
    omega
  exact cut_of_first hne hfirst

theorem tokenize_displayString (s rest : String) :
    ∃ t others, tokenize .tolerant (displayString s ++ rest) = .ok (t :: others) ∧ t.Quotes s := by
  obtain ⟨tokens, htokens⟩ := tokenize_tolerant (displayString s ++ rest)
  have hpieces := htokens
  rw [tokenize, tokenizeWith, String.toList_append, cut_displayString] at hpieces
  obtain ⟨t, others, hpiece, -, rfl⟩ := Token.ofPieces_cons_ok.1 hpieces
  obtain ⟨u, hmade, hquotes⟩ := Token.ofPiece_displayString .tolerant s
  obtain rfl : u = t := Except.ok.inj (hmade.symm.trans hpiece)
  exact ⟨u, others, htokens, hquotes⟩

theorem tokenize_displayString_strict (s : String) :
    ∃ t, tokenize .strict (displayString s) = .ok [t] ∧ t.Quotes s := by
  obtain ⟨t, hpiece, hquotes⟩ := Token.ofPiece_displayString .strict s
  have hcut := cut_displayString s []
  rw [List.append_nil] at hcut
  have htokens : tokenize .strict (displayString s) = .ok [t] := by
    rw [tokenize, tokenizeWith, hcut]
    exact Token.ofPieces_cons_ok.2 ⟨t, [], hpiece, rfl, rfl⟩
  exact ⟨t, htokens, hquotes⟩

/-! ### Scripts -/

open Grammar

/-- The program that is a single text. -/
def Program.ofText (s : String) : Program := ⟨some 0, [.expr (.literal 0 (.text s))]⟩

theorem Program.parse_displayString {room : Nat} (hroom : 33 ≤ room) (s : String) :
    Program.parse room (displayString s) = .ok (Program.ofText s) := by
  obtain ⟨t, htokens, hquotes⟩ := tokenize_displayString_strict s
  have hliteral : (Expr.literal t.pos t.value).Yields [t] :=
    .literal (by rw [hquotes.kind]; rfl)
  have hparse := parse_single hroom htokens (by rw [Token.isTrivia, hquotes.kind]; rfl)
    (by simp [hquotes.kind]) hliteral rfl
  rw [hquotes.pos, hquotes.value] at hparse
  exact hparse

theorem runScript_displayString (host : Host) (depth : Nat) (s : String) (m : Machine) :
    ∃ m', (Evaluator.runScript host (depth + 34) (displayString s)).run m
      = .ok ⟨.ok (.text s), []⟩ m' := by
  rw [Evaluator.runScript_eq_runTree host (depth + 33)
    (Program.parse_displayString (Nat.le_add_left 33 depth) s)]
  exact ⟨_, rfl⟩

/-- **A text that is written as a literal is read back**: by the tokens in front of any other text, by
strict tokens, and by running the literal as a script, whatever the session is; parsing it takes part of
the room. -/
theorem displayString_read (s rest : String) :
    (∃ t others, tokenize .tolerant ((Value.text s).display ++ rest) = .ok (t :: others) ∧ t.Quotes s) ∧
      (∃ t, tokenize .strict (Value.text s).display = .ok [t] ∧ t.Quotes s) ∧
      ∀ (host : Host) (depth : Nat) (m : Machine), ∃ m',
        (Evaluator.runScript host (depth + 34) (Value.text s).display).run m
          = .ok ⟨.ok (.text s), []⟩ m' :=
  ⟨tokenize_displayString s rest, tokenize_displayString_strict s,
    fun host depth m => runScript_displayString host depth s m⟩

end Klex
