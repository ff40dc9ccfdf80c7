import Klex.Host.Given
import Klex.Host.Naming
import Klex.Host.Toolbox

/-!
# Sessions

A session is a machine that scripts run on one after the other, seeing each other's variables.

* **`Method`** — something that the host object has; only exposed computations reach scripts.
* **`Session.start`** — a machine with builtins, host methods and whatever else the host installs in
  the outermost scope, and below it the scope in which scripts run.
* **`Session.script`**, **`Session.run`**, **`Session.call`**, **`Session.set`** — what a host does
  with a session.
* **`runOnce`** — one script in a session of its own.
-/

namespace Klex

/-- Something that the host object has. -/
structure Method where
  /-- The host's own name for it. -/
  name : String
  /-- What it computes; nothing for plain data. -/
  code : Option Native
  /-- Whether scripts may call it. -/
  exposed : Bool
  /-- The value that it was made with. -/
  value : Given

namespace Session

/-- The natives that every session starts with, unless it is asked not to. -/
def builtins : List (String × Native) :=
  [("print", .print), ("printAvailableDebug", .printNames)]

/-- Binds a new native in the outermost scope. -/
def installNative (key name : String) (discards : Bool) (code : Native) (bound : List Value) :
    Exec Unit := do
  let id ← Exec.freshId
  Exec.defineAll rootScope [(key, .native id name discards code bound)]

/-- Binds the builtins, whose results are discarded. -/
def installBuiltins : List (String × Native) → Exec Unit
  | [] => return
  | (name, code) :: rest => do
    installNative name name true code []
    installBuiltins rest

/-- The methods of a host without those that a later one of the same name replaces. -/
def lastOfEach : List Method → List Method
  | [] => []
  | m :: rest =>
    if rest.any fun other => other.name == m.name then lastOfEach rest else m :: lastOfEach rest

/-- Binds a method, if it is an exposed computation. -/
def installMethod (m : Method) : Exec Unit := do
  match m.exposed, m.code with
  | true, some code =>
    let value ← m.value.realize
    let key := Host.camelCase m.name
    installNative key (Native.nameFor (some key) m.name false) false code [value]
  | _, _ => return

/-- Binds the exposed methods of a host in ascending order of their names. -/
def installMethods (methods : List Method) : Exec Unit :=
  (Text.sortOn Method.name (lastOfEach methods)).forM installMethod

/-- Binds what a host gives, in order. -/
def installGiven : List (String × Given) → Exec Unit
  | [] => return
  | (name, given) :: rest => do
    let v ← given.realize
    Exec.defineAll rootScope [(name, v)]
    installGiven rest

/-- Makes the two outer scopes and fills the outermost. -/
def prepare (withBuiltins : Bool) (methods : List Method) (init : List (String × Given)) :
    Exec Unit := do
  let root ← Exec.alloc none false
  if withBuiltins then installBuiltins builtins
  installMethods methods
  installGiven init
  let _ ← Exec.alloc (some root) false

/-- The machine that a session starts with. -/
def start (withBuiltins : Bool) (methods : List Method) (init : List (String × Given)) : Machine :=
  match (prepare withBuiltins methods init).run .empty with
  | .ok _ m | .error _ m => m

/-- Parses and runs a script. -/
def script (source : String) : Exec (Report Value) :=
  Evaluator.runScript toolbox Evaluator.depthLimit source

/-- Runs a program without forgetting what earlier ones left behind. -/
def run (p : Program) : Exec Value :=
  Evaluator.runProgram toolbox Evaluator.depthLimit p globalScope

/-- Runs a program several times. -/
def runTimes (p : Program) : Nat → Exec (List Value)
  | 0 => return []
  | n + 1 => do
    let v ← run p
    let more ← runTimes p n
    return v :: more

/-- Calls what a name is bound to, on behalf of the host. -/
def call (name : String) (args : List Value) : Exec Value := do
  let f := ((← Exec.heap).lookup? globalScope name).getD .null
  Evaluator.call toolbox Evaluator.depthLimit f args globalScope none

/-- Binds a name as an assignment in a script would, and says which scope binds it. -/
def set (name : String) (v : Value) : Exec (Option ScopeId) := do
  Exec.assign globalScope name v
  return (← Exec.heap).owner? globalScope name

/-- The calls that a machine has made, one line each, oldest first. -/
def traceText (m : Machine) : String :=
  String.join <| m.trace.reverse.map fun f =>
    "[DBG] CALL " ++ f.name ++ " argc " ++ toString f.args.length ++ "\n"

end Session

/-- Runs one script in a session of its own. -/
def runOnce (withBuiltins : Bool) (methods : List Method) (init : List (String × Given))
    (source : String) : Except Stop (Report Value) × Machine :=
  match (Session.script source).run (Session.start withBuiltins methods init) with
  | .ok report m => (.ok report, m)
  | .error stop m => (.error stop, m)

end Klex
