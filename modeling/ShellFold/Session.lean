import ShellFold.Journal

/-!
# Sessions

A session owns an oracle and the journal of the assignments recorded for it; both are there while
it is open. It is started with an environment, can be started anew, and hands the journal over
before each question, so that every answer takes the assignments recorded so far into account.
`Session.inScope` runs a part of the work in a context whose changes are dropped.
-/

set_option autoImplicit false

namespace ShellFold

/-- A session with an oracle of state `σ`. -/
structure Session (σ : Type) where
  settings : OracleSettings
  environment : Environment
  host : Host
  /-- The oracle and the journal, while the session is open. -/
  live : Option (σ × Journal) := none
  /-- What oracles that are closed had been sent. -/
  archive : List Sent := []
  /-- The files of journals that exist. -/
  journalFiles : List Text := (live.map fun (_, journal) => journal.path).toList

/-- The statements that define the variables of an environment. -/
def Environment.statements (environment : Environment) : List Statement :=
  environment.vars.entries.flatMap fun (name, v) =>
    .assign name v.value :: (if v.exported then [.exported name] else [])
      ++ (if v.readonly then [.readonly name] else [])

/-- The option flags under which a probe would not merely be answered. -/
def forbiddenOptions : Text := ['e', 'u']

/-- Refuses option flags under which expanding could end the shell. -/
def checkOptions (options : Text) : Except Failure Unit :=
  match forbiddenOptions.find? (· ∈ options) with
  | some flag => .error (.early (.optionEnabled flag))
  | none => .ok ()

/-- The name of the journal file in its directory. -/
def journalName : Text := "/sh_expand_vars".toList

namespace Session

variable {σ α : Type}

/-- A session that has not been started. -/
def new (settings : OracleSettings) (environment : Environment) (host : Host) : Session σ :=
  { settings, environment, host }

def isOpen (session : Session σ) : Bool := session.live.isSome

/-- The statements recorded and not handed over. -/
def pending (session : Session σ) : List Text :=
  match session.live with
  | some (_, journal) => journal.pending
  | none => []

/-- The directory of the journal file. -/
def directory (session : Session σ) : Text :=
  (session.settings.directory? session.host.home).getD session.host.temporaryDirectory

/-- An attempt on the oracle and the journal of an open session. -/
def onLive (x : Attempt (σ × Journal) α) : Attempt (Session σ) α :=
  Attempt.ofOutcome fun session =>
    match session.live with
    | none => (.error (.early .sessionClosed), session)
    | some live =>
      let (result, live) := x.outcome live
      (result, { session with live := some live })

variable [Oracle σ]

def acceptsAssignments (session : Session σ) : Bool :=
  session.live.any fun (oracle, _) => Oracle.acceptsAssignments oracle

/-- Hands the recorded assignments to the oracle. -/
def flush : Attempt (Session σ) Unit := onLive (Journal.flush Oracle.source)

def ask (x : Attempt σ α) : Attempt (Session σ) α := onLive x.onFirst

/-- Expands source text. -/
def expandText (s : Text) (mode : Mode) : Attempt (Session σ) (List Text) := do
  flush
  let fields ← ask (Oracle.expand s mode)
  if mode ≠ .split ∧ fields.length ≠ 1 then
    throw (.stuck (.resultCount mode s fields.length))
  return fields

/-- Expands a word. -/
def expand (w : Word) (mode : Mode) : Attempt (Session σ) (List Text) := do
  let source ← Attempt.ofExcept (if mode = .heredoc then .ok w.heredocText else w.sourceText)
  expandText source mode

/-- Records an assignment for the oracle. -/
def recordAssignment (name value : Text) : Attempt (Session σ) Unit := do
  if !(← get).acceptsAssignments then throw (.impure (.unrecordable name))
  onLive (Attempt.onSecond (Journal.push (.assign name value)))

/-- Enters a context: what has been recorded so far belongs to the state around it. -/
def enterScope : Attempt (Session σ) Unit := do
  flush
  ask Oracle.enterScope

/-- Leaves a context, with what has been recorded in it and not handed over. -/
def leaveScope : Attempt (Session σ) Unit := do
  onLive (Attempt.onSecond (modify Journal.discard))
  ask Oracle.leaveScope

/-- Carries out an attempt in a context of its own, which is left whether it succeeds or not. A
failure of the attempt counts before a failure to leave the context. -/
def inScope (body : Attempt (Session σ) α) : Attempt (Session σ) α := do
  enterScope
  let result ← body.observe
  let left ← leaveScope.observe
  match result, left with
  | .error e, _ => throw e
  | .ok _, .error e => throw e
  | .ok a, .ok () => return a

/-- Defines the environment in the oracle. -/
def loadEnvironment : Attempt (Session σ) Unit := do
  let session ← get
  match session.environment.dumpFile with
  | some path => ask (Oracle.source ⟨path, session.host.fileText path⟩)
  | none => pure ()
  session.environment.statements.forM fun statement =>
    onLive (Attempt.onSecond (Journal.push statement))
  flush
  ask (Oracle.setPositional session.environment.positional)
  Attempt.ofExcept (checkOptions (← ask Oracle.shellOptions))

end Session

namespace Session

variable {σ : Type} [Connected σ]

/-- What has been sent to the oracles of a session. -/
def transcript (session : Session σ) : List Sent :=
  session.archive ++
    match session.live with
    | some (oracle, _) => Connected.transcript oracle
    | none => []

/-- Closes the oracle and removes the journal with its file. A closed session stays closed. -/
def close : Attempt (Session σ) Unit := do
  let session ← get
  match session.live with
  | none => return
  | some (oracle, journal) =>
    let (result, oracle) := Oracle.close.outcome oracle
    let archive := session.archive ++ Connected.transcript oracle
    let journalFiles := session.journalFiles.erase journal.path
    set ({ session with live := none, archive, journalFiles } : Session σ)
    Attempt.ofExcept result

/-- Connects a fresh oracle and makes the file of its journal. What a failed attempt has sent is
archived, and no file is left of it. -/
def connect : Attempt (Session σ) Unit := do
  let session ← get
  let fresh : σ := Connected.create session.settings session.environment
  match (Connected.connect session.settings session.host).outcome fresh with
  | (.ok (), oracle) =>
    let journal : Journal := { path := session.directory ++ journalName }
    let journalFiles := session.journalFiles ++ [journal.path]
    set ({ session with live := some (oracle, journal), journalFiles } : Session σ)
  | (.error e, oracle) =>
    let archive := session.archive ++ Connected.transcript oracle
    set ({ session with archive } : Session σ)
    throw e

/-- Starts a session that is closed: it is open afterwards only if its environment could be
loaded. -/
def start : Attempt (Session σ) Unit := do
  let session ← get
  Attempt.ofExcept (checkOptions session.environment.options)
  if !session.host.hasDirectory session.directory then
    throw (.io (.missingDirectory session.directory))
  connect
  match ← loadEnvironment.observe with
  | .ok () => return
  | .error e => do
    let _ ← close.observe
    throw e

/-- Closes the session and starts it anew, with the environment it began with. -/
def reopen : Attempt (Session σ) Unit := do
  let _ ← close.observe
  start

/-- A session started with an environment, and whether it could be. -/
def start? (settings : OracleSettings) (environment : Environment) (host : Host) :
    Except Failure Unit × Session σ :=
  start.outcome (new settings environment host)

end Session

end ShellFold
