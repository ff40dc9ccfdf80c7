import Klex.Text.Uppercase

/-!
# Names of host methods

* **`Host.camelCase`** — the name under which a script sees a method of the host: the words between
  underscores are joined, and every word but the first starts with a capital.
-/

namespace Klex.Host

/-- Joins the words of a name.  `capital` says that the next character starts a word other than the
first. -/
def joinWords : Bool → List Char → List Char
  | _, [] => []
  | capital, c :: rest =>
    if c = '_' then joinWords true rest
    else (if capital then Text.uppercase c else [c]) ++ joinWords false rest

/-- The name of a method as scripts see it. -/
def camelCase (name : String) : String :=
  String.ofList (joinWords false (name.toList.dropWhile (· == '_')))

end Klex.Host
