import Klex.Decimal.Notation
import Klex.Literal
import Klex.Text.Quoted

/-!
# Failures and faults

What can go wrong, as causes; every wording stands in this module.

* **`Failure`** — an error of the script: a cause and, where known, the offset it belongs to.
  Scripts and hosts see failures as results.
* **`Fault`** — an error of the surroundings, such as a lexicon with gaps or an exhausted stack.
  A fault ends a run without a result.
* **`Stop`** — either of the two.
-/

namespace Klex

namespace Literal

/-- A literal in the host's spelling. -/
def hostForm : Literal → String
  | null => "None"
  | bool b => if b then "True" else "False"
  | int n => toString n
  | float x => Decimal.write x
  | text s => s

end Literal

/-- Why a script failed. -/
inductive Cause where
  /-- A string literal runs to the end of the text, at offset `stop`. -/
  | unterminatedString (stop : Nat)
  /-- A numeric literal has no digits before its exponent, or none in it. -/
  | unreadableNumber (text : String) (stop : Nat)
  /-- No rule of the grammar goes on with this token. -/
  | unexpected (text : String)
  /-- The text ends before a rule of the grammar does. -/
  | unexpectedEnd
  | nestedTooDeeply
  /-- More arguments than a function declares. -/
  | tooManyArguments (params : List String) (given : Nat)
  /-- An operator met operands of types it is not defined for. -/
  | operatorUndefined (op left right : String)
  /-- Something else than a function was called. -/
  | notCallable (shown : String)
  /-- No scope in the chain defines the name. -/
  | unbound (name : String)
  /-- A key that is no name was looked up. -/
  | unboundKey (key : Literal)
  /-- A native gave up with a message. -/
  | raised (message : String)
  /-- A native refused the type of an argument. -/
  | raisedType (message : String)

namespace Cause

/-- The class of a cause, as messages name it. -/
def label : Cause → String
  | unterminatedString _ | unreadableNumber _ _ => "LexFailure"
  | unexpected _ | unexpectedEnd | nestedTooDeeply => "ParseFailure"
  | tooManyArguments _ _ => "ArityError"
  | operatorUndefined _ _ _ | notCallable _ | raisedType _ => "TypeError"
  | unbound _ | unboundKey _ => "NameError"
  | raised _ => "KlexError"

/-- The wording of a cause. -/
def message : Cause → String
  | unterminatedString _ => "Unterminated string literal"
  | unreadableNumber text _ => "Unparsable number '" ++ text ++ "'"
  | unexpected text => "Unexpected " ++ Text.quoted text
  | unexpectedEnd => "Unexpected end of input"
  | nestedTooDeeply => "Expression nested too deeply"
  | tooManyArguments params given =>
    "Attempted to invoke function(" ++ ", ".intercalate params ++ ") with " ++ toString given
      ++ " arguments but it declares " ++ toString params.length ++ "."
  | operatorUndefined op left right =>
    "Operator '" ++ op ++ "' is not defined for " ++ left ++ " and " ++ right
  | notCallable shown => "Value " ++ shown ++ " is not a function."
  | unbound name => "'" ++ name ++ "' is not defined"
  | unboundKey key => "'" ++ key.hostForm ++ "' is not defined"
  | raised message | raisedType message => message

/-- The offset just after the offending text, for causes found while cutting tokens. -/
def stop? : Cause → Option Nat
  | unterminatedString stop | unreadableNumber _ stop => some stop
  | _ => none

end Cause

/-- An error of the script. -/
structure Failure where
  cause : Cause
  /-- The offset of the construct that failed, where one is known. -/
  pos : Option Nat

/-- The class and the wording of a failure in one text. -/
def Failure.describe (f : Failure) : String :=
  f.cause.label ++ ": " ++ f.cause.message

/-- An error of the surroundings. -/
inductive Fault where
  /-- Calls are nested deeper than the evaluator goes. -/
  | stackExhausted
  /-- A whole number is too large to become a double. -/
  | integerTooLarge
  | unknownOperator (op : String)
  /-- The lexicon gives no kind to a symbol. -/
  | missingSymbol (text : String)
  /-- The lexicon gives no colour to a class of tokens. -/
  | missingColor (className : String)
  /-- A scope was to define a key that is no name. -/
  | badKey (typeName : String)
  /-- A scope has no binding of a name. -/
  | missingKey (name : String)
  /-- A key that no scope could ever hold was looked up. -/
  | unsearchableKey
  deriving DecidableEq, Repr

namespace Fault

/-- The wording of a fault, if it has one. -/
def message? : Fault → Option String
  | stackExhausted | unsearchableKey => none
  | integerTooLarge => some "int too large to convert to float"
  | unknownOperator text | missingSymbol text | missingColor text => some (Text.quoted text)
  | badKey typeName => some ("Scope key must be a str, not <class '" ++ typeName ++ "'>")
  | missingKey name => some (Text.quoted ("'" ++ name ++ "'"))

end Fault

/-- What ends a computation early. -/
inductive Stop where
  | failure (f : Failure)
  | fault (f : Fault)

end Klex
