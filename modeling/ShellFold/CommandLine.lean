import ShellFold.Builtin
import ShellFold.Config.Overlay
import ShellFold.Interpreter.Basic
import ShellFold.Json.Printer
import ShellFold.Json.Reader
import ShellFold.Resolve.Tree
import ShellFold.Tree.Json
import ShellFold.Variables.Json

/-!
# The command line

One request is read from the input, a tree with its environment, and one line is written: the
tree with its words resolved, or as it is with the reason. `respond` computes the answer from the
settings, the host and the input; `Notice` lists what can go wrong besides.
-/

set_option autoImplicit false

namespace ShellFold

/-- A tree to resolve in an environment. -/
structure Request where
  tree : Node
  environment : Environment := {}

/-- How deep a request may be nested. -/
def maxDepth : Nat := 127

/-- A request from a record. Every part of the tree must be valid, also one that is not used. -/
def Request.ofJson? (value : Json) : Option Request := do
  let fields ← value.record? { needed := ["tree"], further := ["environment"] }
  return {
    tree := ← fields.required "tree" fun tree => do Node.ofJson? (← tree.valid?)
    environment := ← fields.defaulted "environment" {} Environment.ofJson? }

def Request.read? (s : Text) : Option Request := do Request.ofJson? (← Json.read? maxDepth s)

/-- Something the user is told of besides the answer. -/
inductive Notice
  | settingsIgnored
  | logNotOpened (path : Text)
  | inputNotText
  | requestNotRead
  | oracleFailed (e : Failure)
  deriving DecidableEq, Repr

def Notice.message : Notice → String
  | settingsIgnored => "sh-expand: config parse error"
  | logNotOpened path => "sh-expand: cannot open " ++ String.ofList path
  | inputNotText => "failed to read stdin"
  | requestNotRead => "JSON parse error"
  | oracleFailed e => "sh-expand: " ++ String.ofList e.message

def Outcome.toJson : Outcome → Json
  | expanded node => .object [("status", .string "expanded"), ("tree", node.toJson)]
  | kept node reason =>
    .object
      [("status", .string "unexpanded"), ("tree", node.toJson),
        ("reason", .ofText reason.message), ("kind", .string reason.kind)]

/-- What became of a request in a session that is open, which is closed in the end. -/
def Request.carryOut {σ : Type} [Connected σ] (request : Request) :
    Attempt (Session σ) Outcome := do
  let outcome ← request.tree.resolveOrKeep
  Session.close
  return outcome

def Request.outcomeWith (σ : Type) [Connected σ] (request : Request) (settings : OracleSettings)
    (host : Host) : Except Failure Outcome :=
  let session : Session σ := .new settings request.environment host
  ((do Session.start; request.carryOut : Attempt (Session σ) Outcome).outcome session).1

/-- What becomes of a request. A tree whose environment could not be loaded is kept as well. -/
def Request.outcome (request : Request) (settings : OracleSettings) (host : Host) :
    Except Failure Outcome :=
  let result :=
    match settings.backend with
    | .bash => request.outcomeWith Interpreter settings host
    | .builtin => request.outcomeWith Builtin settings host
  match result with
  | .ok outcome => .ok outcome
  | .error e => if e.isExpected then .ok (.kept request.tree e) else .error e

/-- The answer to an input, which is missing if it is not text. -/
def respond (settings : OracleSettings) (host : Host) (input : Option Text) :
    Except Notice Json :=
  match input with
  | none => .error .inputNotText
  | some input =>
    match Request.read? input with
    | none => .error .requestNotRead
    | some request =>
      match request.outcome settings host with
      | .ok outcome => .ok outcome.toJson
      | .error e => .error (.oracleFailed e)

/-- The file of the debug log, if there is to be one. -/
def Settings.logFile? (settings : Settings) (home : Option Text) : Option Text :=
  if settings.log.debug then settings.log.path? home else none

/-- The place of the user's settings in the home directory. -/
def settingsFile : Text := "/.config/sh-expand/config.toml".toList

end ShellFold
