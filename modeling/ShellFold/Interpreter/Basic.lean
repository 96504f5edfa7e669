import ShellFold.Interpreter.Probe
import ShellFold.Oracle
import ShellFold.Word

/-!
# The oracle with a live interpreter

`Interpreter` asks a shell on a terminal. It sends one command at a time and takes everything up
to the next prompt as the reply. Contexts are loops in subshells of the interpreter, counted by
`depth`. Once a prompt fails to appear the replies can no longer be told apart: the oracle is
poisoned and sends nothing more.
-/

set_option autoImplicit false

namespace ShellFold

/-- The state of a live interpreter. -/
structure Interpreter where
  sentinel : Text
  /-- How long a prompt may take, in milliseconds. -/
  timeout : Nat
  /-- The terminal, while it is open. -/
  terminal : Option Terminal := none
  /-- The number of contexts that are open. -/
  depth : Nat := 0
  poisoned : Bool := false
  sent : List Sent := []
  deriving DecidableEq, Repr

namespace Interpreter

/-- Takes the output up to the next prompt. -/
def awaitPrompt : Attempt Interpreter Text := do
  let it ← get
  match it.terminal with
  | none => throw (.early .oracleClosed)
  | some terminal =>
    match terminal.await? it.sentinel with
    | some (reply, terminal) =>
      set { it with terminal := some terminal }
      match decodeReply? reply with
      | some text => return text
      | none => throw (.stuck .invalidEncoding)
    | none =>
      set { it with poisoned := true }
      match terminal.ending with
      | .silent => throw (.stuck (.noPromptWithin it.timeout))
      | .closed => throw (.io .terminalClosed)

/-- Sends a command and takes its reply; `script` is the file that the command reads. -/
def send (command : Text) (script : Option Script) : Attempt Interpreter Text := do
  let it ← get
  if it.poisoned then throw (.stuck .desynchronized)
  let line := if it.depth = 0 then command else Probe.escape command
  set { it with sent := it.sent ++ [({ line, script } : Sent)] }
  if it.terminal.isNone then throw (.early .oracleClosed)
  awaitPrompt

def run (command : Text) : Attempt Interpreter Text := send command none

/-- The fields of a word. -/
def expandWord (word : Text) : Attempt Interpreter (List Text) := do
  let reply ← run (Probe.splitting word)
  Attempt.ofExcept (Probe.fields? reply)

/-- The value of a word, never split. -/
def expandNoSplit (word : Text) : Attempt Interpreter Text := do
  if !Probe.isSingleToken word then throw (.early (.notSingleWord word))
  let reply ← run (Probe.assigning word)
  Attempt.ofExcept (Probe.value? reply)

/-- The value of a redirection target, which must be one field. -/
def expandTarget (word : Text) : Attempt Interpreter Text := do
  match ← expandWord word with
  | [target] => return target
  | _ => throw (.stuck (.ambiguousTarget word))

/-- The text of a here-document. -/
def expandHeredoc (body : Text) : Attempt Interpreter Text := do
  if Probe.hasDelimiter body then throw (.early .delimiterInBody)
  let reply ← run (Probe.printing (Probe.padded body))
  return Probe.unpadded body reply

/-- Expands a word or body. -/
def expand (s : Text) : Mode → Attempt Interpreter (List Text)
  | .split => expandWord s
  | .noSplit => do return [← expandNoSplit s]
  | .target => do return [← expandTarget s]
  | .heredoc => do return [← expandHeredoc s]

def source (script : Script) : Attempt Interpreter Unit := do
  let path ← Attempt.ofExcept (quoteLiteral script.path)
  let _ ← send ("source ".toList ++ path) (some script)

def setPositional (values : List Text) : Attempt Interpreter Unit := do
  let quoted ← Attempt.ofExcept (values.mapM quoteLiteral)
  let _ ← run ("set -- ".toList ++ [' '].intercalate quoted)

def enterScope : Attempt Interpreter Unit := do
  let _ ← run Probe.scopeLoop
  modify fun it => { it with depth := it.depth + 1 }

/-- Ends the innermost context, which is over even if the interpreter does not answer. -/
def leaveScope : Attempt Interpreter Unit := do
  if (← get).depth = 0 then throw (.stuck .unmatchedLeave)
  let result ← (run "exit".toList).observe
  modify fun it => { it with depth := it.depth - 1 }
  let _ ← Attempt.ofExcept result

def close : Attempt Interpreter Unit := modify fun it => { it with terminal := none }

/-- Waits for the first prompt. -/
def awaitFirst : Attempt Interpreter Unit := do
  match ← awaitPrompt.observe with
  | .ok _ => return
  | .error (.stuck cause) => throw (.early (.promptNeverShown cause))
  | .error e => throw e

/-- Starts the interpreter of the host. -/
def connect (settings : OracleSettings) (host : Host) : Attempt Interpreter Unit := do
  Attempt.ofExcept (Probe.checkSentinel settings.sentinel)
  match host.terminal with
  | none => throw (.io (.missingShell settings.shell))
  | some terminal =>
    modify fun it => { it with terminal := some terminal }
    awaitFirst
    let _ ← run Probe.preparing

instance : Connected Interpreter where
  expand := expand
  source := source
  setPositional := setPositional
  shellOptions := run Probe.options
  enterScope := enterScope
  leaveScope := leaveScope
  acceptsAssignments _ := false
  close := close
  create settings _ := { sentinel := settings.sentinel, timeout := settings.timeout }
  connect := connect
  transcript it := it.sent

end Interpreter

end ShellFold
