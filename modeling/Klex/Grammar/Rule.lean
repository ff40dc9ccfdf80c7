import Std.Data.HashMap
import Klex.Token
import Klex.Tree

/-!
# Rules of a grammar

Rules that read tokens from left to right and choose among alternatives in order.

* **`Cursor`** — a place in a row of tokens: how many were read, and which follow.
* **`Trail`** — what a run has learnt so far: the furthest token that some rule did not accept, and
  the basic expressions already read, by the place they start at.
* **`Rule`** — from a cursor and a trail to a reply and a longer trail.  A rule accepts, rejects, or
  gives up because the text is nested too deeply; giving up ends every alternative.
* **`Rule.token`**, **`Rule.skip`**, **`Rule.orElse`**, **`Rule.optional`**, **`Rule.many`** — how
  rules are made.

A rejecting rule leaves no cursor behind, so whoever tries the next alternative starts from where the
first one did.  The trail, in contrast, is never taken back.
-/

namespace Klex.Grammar

/-- A place in a row of tokens. -/
structure Cursor where
  /-- How many tokens stand before the place. -/
  index : Nat
  /-- The tokens from the place on. -/
  rest : List Token

/-- The start of a row of tokens. -/
def Cursor.start (tokens : List Token) : Cursor := ⟨0, tokens⟩

/-- The place behind the layout and the comments that come next. -/
def Cursor.settle (c : Cursor) : Cursor where
  index := c.index + (c.rest.takeWhile Token.isTrivia).length
  rest := c.rest.dropWhile Token.isTrivia

/-- The offset of the next token, if there is one. -/
def Cursor.pos? (c : Cursor) : Option Nat := c.rest.head?.map Token.pos

/-- What a run has learnt so far. -/
structure Trail where
  /-- The greatest index of a token that was not accepted. -/
  furthest : Nat
  /-- Basic expressions by the index they start at; `none` where there is none. -/
  basics : Std.HashMap Nat (Option (Expr × Cursor))

namespace Trail

/-- The trail before any token was read. -/
def empty : Trail := ⟨0, ∅⟩

/-- Notes that the token at an index was not accepted. -/
def note (t : Trail) (index : Nat) : Trail := { t with furthest := max t.furthest index }

/-- Remembers what a basic expression at an index came to. -/
def remember (t : Trail) (index : Nat) (found : Option (Expr × Cursor)) : Trail :=
  { t with basics := t.basics.insert index found }

end Trail

/-- The outcome of a rule. -/
inductive Reply (α : Type) where
  | accept (value : α) (next : Cursor)
  | reject
  | tooDeep

/-- A rule of a grammar. -/
def Rule (α : Type) : Type := Cursor → Trail → Reply α × Trail

namespace Rule

variable {α β : Type}

/-- Accepts without reading. -/
protected def pure (a : α) : Rule α := fun c t => (.accept a c, t)

/-- One rule after another. -/
protected def bind (p : Rule α) (f : α → Rule β) : Rule β := fun c t =>
  match p c t with
  | (.accept a c', t') => f a c' t'
  | (.reject, t') => (.reject, t')
  | (.tooDeep, t') => (.tooDeep, t')

instance : Monad Rule where
  pure := Rule.pure
  bind := Rule.bind

/-- The second rule where the first one rejects. -/
protected def orElse (p : Rule α) (q : Unit → Rule α) : Rule α := fun c t =>
  match p c t with
  | (.reject, t') => q () c t'
  | (.accept a c', t') => (.accept a c', t')
  | (.tooDeep, t') => (.tooDeep, t')

instance : OrElse (Rule α) where
  orElse := Rule.orElse

/-- Gives up. -/
def tooDeep : Rule α := fun _ t => (.tooDeep, t)

/-- Reads one token that has a reading; notes the place if it has none. -/
def read (f : Token → Option α) : Rule α := fun c t =>
  match c.rest with
  | [] => (.reject, t.note c.index)
  | token :: rest =>
    match f token with
    | some a => (.accept a ⟨c.index + 1, rest⟩, t)
    | none => (.reject, t.note c.index)

/-- Reads one token of a kind. -/
def token (kind : Kind) : Rule Token :=
  read fun t => if t.kind = kind then some t else none

/-- Reads an identifier with a given text. -/
def keyword (text : String) : Rule Token :=
  read fun t => if t.kind = .identifier && t.text = text then some t else none

/-- Passes over layout and comments.  This is no attempt at anything, so nothing is noted. -/
def skip : Rule Unit := fun c t => (.accept () c.settle, t)

/-- The offset of the next token, without reading it. -/
def pos? : Rule (Option Nat) := fun c t => (.accept c.pos? c, t)

/-- What a rule accepts, or nothing. -/
def optional (p : Rule α) : Rule (Option α) := fun c t =>
  match p c t with
  | (.accept a c', t') => (.accept (some a) c', t')
  | (.reject, t') => (.accept none c, t')
  | (.tooDeep, t') => (.tooDeep, t')

/-- A rule as often as it accepts, but at most `n` times. -/
def manyUpTo (p : Rule α) : Nat → Rule (List α)
  | 0 => pure []
  | n + 1 => do
    match ← p.optional with
    | none => pure []
    | some a =>
      let more ← manyUpTo p n
      pure (a :: more)

/-- A rule as often as it accepts.  The rule must read something each time it accepts, so the
tokens that are left bound the number of attempts. -/
def many (p : Rule α) : Rule (List α) := fun c t => manyUpTo p (c.rest.length + 1) c t

end Rule

end Klex.Grammar
