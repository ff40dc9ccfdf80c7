import Klex.Machine
import Klex.Operator
import Klex.Tree.Parse
import Klex.Scope.Key

/-!
# The evaluator

* **`evaluate`** — the value of an expression in a scope.
* **`execute`** — runs a statement; a value comes out where a `return` is on its way outward.
* **`call`** — calls a function with arguments.
* **`runProgram`** — runs the statements of a text, and gives the value of a `return` that reaches
  the top, or else the value of the last statement if that is an expression.
* **`runScript`** — parses and runs a text in the session's own scope, and reports.

All of them take the depth to which they may go; a computation that needs more ends with a fault.
Both operands of an operator are always evaluated.  A function that is called gets a scope inside the
one where its literal was evaluated, not inside the caller's.
-/

namespace Klex

/-- How deep evaluation may go. -/
def Evaluator.depthLimit : Nat := callLimit

/-- The outermost scope: builtins and what the host installs. -/
def rootScope : ScopeId := 0

/-- The scope in which scripts run. -/
def globalScope : ScopeId := 1

namespace Evaluator

/-! ### Rows -/

/-- A computation for each item of a row, from left to right. -/
def each {α β : Type} (f : α → Exec β) : List α → Exec (List β)
  | [] => return []
  | a :: rest => do
    let b ← f a
    let more ← each f rest
    return b :: more

/-- Runs statements until one returns. -/
def untilReturn (run : Stmt → Exec (Option Value)) : List Stmt → Exec (Option Value)
  | [] => return none
  | s :: rest => do
    match ← run s with
    | some v => return some v
    | none => untilReturn run rest

/-- Runs the statements of a program, given the value so far. -/
def runStatements (value : Expr → Exec Value) (run : Stmt → Exec (Option Value)) :
    Value → List Stmt → Exec Value
  | last, [] => return last
  | _, .expr e :: rest => do
    let v ← value e
    runStatements value run v rest
  | _, s :: rest => do
    match ← run s with
    | some v => return v
    | none => runStatements value run .null rest

/-! ### Calls -/

/-- The name that a call goes by in traces. -/
def calleeName : Expr → String
  | .name _ id => id
  | _ => "<call>"

/-- A function of the language: its parameters are bound in a new scope, and its body runs there. -/
def callClosure (run : Stmt → ScopeId → Exec (Option Value)) (params : List String) (body : Stmt)
    (home : ScopeId) (args : List Value) (site : Option Nat) : Exec Value := do
  if params.length < args.length then
    Exec.fail (.tooManyArguments params args.length) site
  let s ← Exec.alloc (some home) true
  Exec.defineAll s (params.zip args)
  let result ← run body s
  return result.getD .null

/-- A native of the host. -/
def callNative (host : Host) (reentry : Reentry) (discards : Bool) (code : Native)
    (request : Request) : Exec Value := do
  let result ← host reentry code request
  return if discards then .null else result.orNull

/-- The result of an operator, which has to be defined for its operands. -/
def operate (pos : Nat) (op : String) (a b : Value) : Exec Value := do
  match ← Exec.ofFault (applyOperator op a b) with
  | some v => return v
  | none => Exec.fail (.operatorUndefined op a.typeName b.typeName) (some pos)

/-! ### Reports -/

/-- A frame in a trace. -/
def describeFrame (f : Frame) : String :=
  let args := " ".intercalate (f.args.map Value.display)
  if args.isEmpty then "(" ++ f.name ++ ")" else "(" ++ f.name ++ " " ++ args ++ ")"

/-- The message of a failure, with a trace of the calls in progress if there are any. -/
def messageWithTrace (f : Failure) (frames : List Frame) : String :=
  if frames.isEmpty then f.describe
  else f.describe ++ "\nKlex stacktrace: " ++ " ".intercalate (frames.map describeFrame)

/-- Reports a failure of a script.  A failure without an offset points to the node entered last. -/
def reportFailure (source : String) (f : Failure) : Exec (Report Value) := do
  let m ← get
  let message := messageWithTrace f m.frames
  Exec.emit "stderr" message
  return ⟨.error ⟨f, message, f.pos.or m.current, source⟩, (← get).effects.toList⟩

/-- Reports a run, whether it ends with a value or a failure. -/
def reporting (source : String) (run : Exec Value) : Exec (Report Value) :=
  tryCatch
    (do
      let v ← run
      return ⟨.ok v, (← get).effects.toList⟩)
    fun
      | .failure f => reportFailure source f
      | .fault f => Exec.fault f

/-! ### The evaluator itself -/

mutual

/-- The value of an expression. -/
def evaluate (host : Host) : Nat → Expr → ScopeId → Exec Value
  | 0, _, _ => Exec.fault .stackExhausted
  | depth + 1, e, s => do
    Exec.enter (some e.pos)
    match e with
    | .literal _ v => return .ofLiteral v
    | .name pos id => Exec.ofStop ((← Exec.heap).lookup s id (some pos) |>.mapError .failure)
    | .group _ inner => evaluate host depth inner s
    | .negate _ operand => return .bool !(← evaluate host depth operand s).isTruthy
    | .function _ params body => return .closure (← Exec.freshId) params body s
    | .binary pos op left right =>
      let a ← evaluate host depth left s
      let b ← evaluate host depth right s
      operate pos op a b
    | .call pos callee args =>
      let target ← evaluate host depth callee s
      if target.isCallable then
        let values ← each (fun arg => evaluate host depth arg s) args
        Exec.push ⟨calleeName callee, target, values, pos⟩
        let result ← call host depth target values s (some pos)
        Exec.pop
        return result
      else
        Exec.fail (.notCallable target.display) (some pos)

/-- Runs a statement. -/
def execute (host : Host) : Nat → Stmt → ScopeId → Exec (Option Value)
  | 0, _, _ => Exec.fault .stackExhausted
  | depth + 1, stmt, s => do
    Exec.enter stmt.pos
    match stmt with
    | .expr e =>
      let _ ← evaluate host depth e s
      return none
    | .assign _ target value =>
      let v ← evaluate host depth value s
      Exec.assign s target v
      return none
    | .block _ body =>
      let inner ← Exec.alloc (some s) false
      untilReturn (fun stmt => execute host depth stmt inner) body
    | .cond _ test yes no =>
      let v ← evaluate host depth test s
      if v.isTruthy then execute host depth yes s
      else match no with
        | some stmt => execute host depth stmt s
        | none => return none
    | .ret _ value => return (← evaluate host depth value s).present?

/-- Calls a value with arguments. -/
def call (host : Host) : Nat → Value → List Value → ScopeId → Option Nat → Exec Value
  | 0, _, _, _, _ => Exec.fault .stackExhausted
  | depth + 1, f, args, s, site =>
    match f with
    | .native _ _ discards code bound =>
      let reentry : Reentry :=
        ⟨fun f args s => call host depth f args s none, fun source => runScript host depth source⟩
      callNative host reentry discards code ⟨s, args, bound⟩
    | .closure _ params body home => callClosure (execute host depth) params body home args site
    | v => Exec.fail (.notCallable v.display) site

/-- Parses and runs a text in the scope of the session.  The effects and calls of earlier scripts are
forgotten first. -/
def runScript (host : Host) : Nat → String → Exec (Report Value)
  | 0, _ => Exec.fault .stackExhausted
  | depth + 1, source => do
    Exec.clear
    reporting source do
      let p ← Exec.ofStop (Program.parse depth source)
      runStatements (fun e => evaluate host depth e globalScope)
        (fun stmt => execute host depth stmt globalScope) .null p.statements

end

/-- Runs a program in a scope. -/
def runProgram (host : Host) (depth : Nat) (p : Program) (s : ScopeId) : Exec Value :=
  runStatements (fun e => evaluate host depth e s) (fun stmt => execute host depth stmt s) .null
    p.statements

end Evaluator

end Klex
