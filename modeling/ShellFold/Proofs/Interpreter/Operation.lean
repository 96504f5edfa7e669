import ShellFold.Interpreter.Basic
import ShellFold.Proofs.Attempt

/-!
# Operations of an interpreter

A request to an interpreter is one question: a command, which the request may be unable to make,
and a way to read the reply (`Request.effect`). `Exchange` lists what can come of sending a
command: it is refused, the interpreter is closed, its output is a reply, or bytes that are no
text, or it runs dry. What holds of every request is a case analysis on this list, and what holds
of a run an induction on its steps.
-/

set_option autoImplicit false

namespace ShellFold

open Attempt

/-- Why there is no prompt where the output runs dry. -/
def Ending.failure (timeout : Nat) : Ending → Failure
  | silent => .stuck (.noPromptWithin timeout)
  | closed => .io .terminalClosed

namespace Interpreter

/-! ## Sending a command -/

/-- The interpreter when one more command has been sent. -/
def log (it : Interpreter) (command : Text) (script : Option Script) : Interpreter :=
  let line := if it.depth = 0 then command else Probe.escape command
  { it with sent := it.sent ++ [({ line, script } : Sent)] }

theorem log_sent_ne (it : Interpreter) (command : Text) (script : Option Script) :
    (it.log command script).sent ≠ it.sent := by
  rw [log]
  exact fun h => List.cons_ne_nil _ _ (List.append_right_eq_self.1 h)

section

variable {it : Interpreter} {terminal rest : Terminal} {reply : List UInt8}

theorem outcome_awaitPrompt_some (hterminal : it.terminal = some terminal)
    (h : terminal.await? it.sentinel = some (reply, rest)) :
    awaitPrompt.outcome it =
      (match decodeReply? reply with
        | some text => .ok text
        | none => .error (.stuck .invalidEncoding),
        { it with terminal := some rest }) := by
  rw [awaitPrompt, outcome_bind, outcome_get]
  dsimp only
  rw [hterminal]
  dsimp only
  rw [h]
  dsimp only
  cases decodeReply? reply <;> rfl

theorem outcome_awaitPrompt_none (hterminal : it.terminal = some terminal)
    (h : terminal.await? it.sentinel = none) :
    awaitPrompt.outcome it =
      (.error (terminal.ending.failure it.timeout), { it with poisoned := true }) := by
  rw [awaitPrompt, outcome_bind, outcome_get]
  dsimp only
  rw [hterminal]
  dsimp only
  rw [h]
  dsimp only
  cases terminal.ending <;> rfl

end

theorem outcome_send (it : Interpreter) (command : Text) (script : Option Script) :
    (send command script).outcome it =
      if it.poisoned then (.error (.stuck .desynchronized), it)
      else if it.terminal.isNone then (.error (.early .oracleClosed), it.log command script)
      else awaitPrompt.outcome (it.log command script) := by
  rw [send, outcome_bind, outcome_get]
  dsimp only
  split
  · rfl
  · rw [outcome_bind]
    show (if it.terminal.isNone = true then _ else awaitPrompt : Attempt Interpreter Text).outcome
      (it.log command script) = _
    split <;> rfl

theorem outcome_send_some {it : Interpreter} {terminal rest : Terminal} {reply : List UInt8}
    (hpoisoned : it.poisoned = false) (hterminal : it.terminal = some terminal)
    (hreply : terminal.await? it.sentinel = some (reply, rest)) (command : Text)
    (script : Option Script) :
    (send command script).outcome it =
      (match decodeReply? reply with
        | some text => .ok text
        | none => .error (.stuck .invalidEncoding),
        { it.log command script with terminal := some rest }) := by
  have hlogged : (it.log command script).terminal = some terminal := hterminal
  rw [outcome_send, hpoisoned, if_neg Bool.false_ne_true, hterminal, Option.isNone_some,
    if_neg Bool.false_ne_true, outcome_awaitPrompt_some hlogged hreply]

/-- What can come of sending a command to an interpreter and waiting for the reply. -/
inductive Exchange (it : Interpreter) (command : Text) (script : Option Script) :
    Except Failure Text → Interpreter → Prop
  | refused (hpoisoned : it.poisoned = true) :
      Exchange it command script (.error (.stuck .desynchronized)) it
  | closed (hpoisoned : it.poisoned = false) (hterminal : it.terminal = none) :
      Exchange it command script (.error (.early .oracleClosed)) (it.log command script)
  | answered {terminal rest : Terminal} {reply : List UInt8} {text : Text}
      (hpoisoned : it.poisoned = false) (hterminal : it.terminal = some terminal)
      (hreply : terminal.await? it.sentinel = some (reply, rest))
      (htext : decodeReply? reply = some text) :
      Exchange it command script (.ok text) { it.log command script with terminal := some rest }
  | garbled {terminal rest : Terminal} {reply : List UInt8}
      (hpoisoned : it.poisoned = false) (hterminal : it.terminal = some terminal)
      (hreply : terminal.await? it.sentinel = some (reply, rest))
      (htext : decodeReply? reply = none) :
      Exchange it command script (.error (.stuck .invalidEncoding))
        { it.log command script with terminal := some rest }
  | dry {terminal : Terminal} (hpoisoned : it.poisoned = false)
      (hterminal : it.terminal = some terminal) (hreply : terminal.await? it.sentinel = none) :
      Exchange it command script (.error (terminal.ending.failure it.timeout))
        { it.log command script with poisoned := true }

/-- Every command that is to be sent comes to one of the exchanges. -/
theorem exchange (it : Interpreter) (command : Text) (script : Option Script) :
    Exchange it command script ((send command script).outcome it).1
      ((send command script).outcome it).2 := by
  cases hpoisoned : it.poisoned with
  | true =>
    rw [outcome_send, if_pos hpoisoned]
    exact .refused hpoisoned
  | false =>
    cases hterminal : it.terminal with
    | none =>
      rw [outcome_send, hpoisoned, hterminal]
      exact .closed hpoisoned hterminal
    | some terminal =>
      cases hreply : terminal.await? it.sentinel with
      | none =>
        have hlogged : (it.log command script).terminal = some terminal := hterminal
        rw [outcome_send, hpoisoned, if_neg Bool.false_ne_true, hterminal, Option.isNone_some,
          if_neg Bool.false_ne_true, outcome_awaitPrompt_none hlogged hreply]
        exact .dry hpoisoned hterminal hreply
      | some cut =>
        obtain ⟨reply, rest⟩ := cut
        rw [outcome_send_some hpoisoned hterminal hreply]
        cases htext : decodeReply? reply with
        | none => exact .garbled hpoisoned hterminal hreply htext
        | some text => exact .answered hpoisoned hterminal hreply htext

/-! ## Requests -/

/-- What an interpreter can be asked. -/
inductive Request
  | run (command : Text)
  | expand (s : Text) (mode : Mode)
  | source (script : Script)
  | setPositional (values : List Text)
  | shellOptions
  | enterScope
  | leaveScope
  deriving DecidableEq, Repr

namespace Request

def attempt : Request → Attempt Interpreter (List Text)
  | run command => do return [← Interpreter.run command]
  | expand s mode => Interpreter.expand s mode
  | source script => do Interpreter.source script; return []
  | setPositional values => do Interpreter.setPositional values; return []
  | shellOptions => do return [← Oracle.shellOptions]
  | enterScope => do Interpreter.enterScope; return []
  | leaveScope => do Interpreter.leaveScope; return []

/-- The command of a request that is made in so many contexts, and the file that it reads. -/
def command (depth : Nat) : Request → Except Failure (Text × Option Script)
  | run command => .ok (command, none)
  | expand s .split => .ok (Probe.splitting s, none)
  | expand s .target => .ok (Probe.splitting s, none)
  | expand s .noSplit =>
    if Probe.isSingleToken s then .ok (Probe.assigning s, none)
    else .error (.early (.notSingleWord s))
  | expand s .heredoc =>
    if Probe.hasDelimiter s then .error (.early .delimiterInBody)
    else .ok (Probe.printing (Probe.padded s), none)
  | source script => do return ("source ".toList ++ (← quoteLiteral script.path), some script)
  | setPositional values => do
    return ("set -- ".toList ++ [' '].intercalate (← values.mapM quoteLiteral), none)
  | shellOptions => .ok (Probe.options, none)
  | enterScope => .ok (Probe.scopeLoop, none)
  | leaveScope => if depth = 0 then .error (.stuck .unmatchedLeave) else .ok ("exit".toList, none)

/-- What a request makes of the reply. -/
def read : Request → Text → Except Failure (List Text)
  | expand _ .split, reply => Probe.fields? reply
  | expand s .target, reply => do
    match ← Probe.fields? reply with
    | [target] => return [target]
    | _ => throw (.stuck (.ambiguousTarget s))
  | expand _ .noSplit, reply => do return [← Probe.value? reply]
  | expand s .heredoc, reply => .ok [Probe.unpadded s reply]
  | run _, reply => .ok [reply]
  | shellOptions, reply => .ok [reply]
  | _, _ => .ok []

/-- The number of contexts when a request has been made. -/
def depthAfter (depth : Nat) : Request → Except Failure (List Text) → Nat
  | enterScope, .ok _ => depth + 1
  | leaveScope, _ => depth - 1
  | _, _ => depth

/-- Sends a command, if there is one, and reads the reply. -/
def ask (command : Except Failure (Text × Option Script))
    (read : Text → Except Failure (List Text)) : Attempt Interpreter (List Text) := do
  let (command, script) ← Attempt.ofExcept command
  let reply ← send command script
  Attempt.ofExcept (read reply)

variable {it after : Interpreter} {command : Text} {script : Option Script}
  {read : Text → Except Failure (List Text)}

theorem outcome_ask_error {e : Failure} (it : Interpreter) :
    (ask (.error e) read).outcome it = (.error e, it) := rfl

theorem outcome_ask_ok {result : Except Failure Text}
    (h : (send command script).outcome it = (result, after)) :
    (ask (.ok (command, script)) read).outcome it = (result >>= read, after) := by
  rw [ask, ofExcept_ok_bind]
  cases result with
  | error e => rw [outcome_bind_error h, error_bind]
  | ok reply => rw [outcome_bind_ok h, outcome_ofExcept, ok_bind]

/-- A request that neither begins nor ends a context is a question. -/
theorem attempt_eq_ask (request : Request) (henter : request ≠ enterScope)
    (hleave : request ≠ leaveScope) (depth : Nat) :
    request.attempt = ask (request.command depth) request.read := by
  cases request with
  | run command => rfl
  | expand s mode =>
    cases mode with
    | split => rfl
    | target =>
      simp only [attempt, Interpreter.expand, expandTarget, expandWord, Interpreter.run, bind_assoc]
      refine congrArg (send (Probe.splitting s) none >>= ·) (funext fun reply => ?_)
      rw [Request.read]
      cases Probe.fields? reply with
      | error e => rfl
      | ok fields =>
        rw [ofExcept_ok_bind, ok_bind]
        rcases fields with _ | ⟨target, _ | ⟨second, others⟩⟩ <;> rfl
    | noSplit =>
      simp only [attempt, Interpreter.expand, expandNoSplit, Request.command]
      cases Probe.isSingleToken s with
      | false => rfl
      | true =>
        simp only [Bool.not_true, Bool.false_eq_true, ↓reduceIte, Interpreter.run, bind_assoc]
        refine congrArg (send (Probe.assigning s) none >>= ·) (funext fun reply => ?_)
        rw [Request.read]
        cases Probe.value? reply <;> rfl
    | heredoc =>
      simp only [attempt, Interpreter.expand, expandHeredoc, Request.command]
      cases Probe.hasDelimiter s with
      | true => rfl
      | false =>
        simp only [Bool.false_eq_true, ↓reduceIte, Interpreter.run, bind_assoc]
        rfl
  | source script =>
    simp only [attempt, Interpreter.source, Request.command]
    cases quoteLiteral script.path with
    | error e => rfl
    | ok path =>
      simp only [ofExcept_ok_bind, bind_assoc]
      rfl
  | setPositional values =>
    simp only [attempt, Interpreter.setPositional, Request.command]
    cases values.mapM quoteLiteral with
    | error e => rfl
    | ok quoted =>
      simp only [ofExcept_ok_bind, bind_assoc]
      rfl
  | shellOptions => rfl
  | enterScope => exact absurd rfl henter
  | leaveScope => exact absurd rfl hleave

theorem depthAfter_of_ne {request : Request} (henter : request ≠ enterScope)
    (hleave : request ≠ leaveScope) (depth : Nat) (result : Except Failure (List Text)) :
    request.depthAfter depth result = depth := by
  cases request with
  | enterScope => exact absurd rfl henter
  | leaveScope => exact absurd rfl hleave
  | _ => rfl

/-- What can come of a request: its command cannot be made, and nothing happens, or it is sent, and
the request makes of the reply what it can. -/
inductive Effect (request : Request) (it : Interpreter) :
    Except Failure (List Text) → Interpreter → Prop
  | withheld {e : Failure} (hcommand : request.command it.depth = .error e) :
      Effect request it (.error e) it
  | exchanged {command : Text} {script : Option Script} {result : Except Failure Text}
      {after : Interpreter} (hcommand : request.command it.depth = .ok (command, script))
      (hexchange : Exchange it command script result after) :
      Effect request it (result >>= request.read)
        { after with depth := request.depthAfter after.depth (result >>= request.read) }

theorem outcome_enterScope {result : Except Failure Text}
    (h : (send Probe.scopeLoop none).outcome it = (result, after)) :
    enterScope.attempt.outcome it =
      (result >>= enterScope.read,
        { after with depth := enterScope.depthAfter after.depth (result >>= enterScope.read) }) := by
  simp only [attempt, Interpreter.enterScope, Interpreter.run, bind_assoc]
  cases result with
  | error e =>
    rw [outcome_bind_error h]
    rfl
  | ok reply =>
    rw [outcome_bind_ok h]
    rfl

theorem outcome_leaveScope_unmatched (hdepth : it.depth = 0) :
    leaveScope.attempt.outcome it = (.error (.stuck .unmatchedLeave), it) := by
  simp only [attempt, Interpreter.leaveScope, bind_assoc]
  rw [outcome_bind_ok outcome_get, if_pos hdepth]
  rfl

/-- A context ends whatever has come of the command that ends it. -/
theorem outcome_leaveScope {result : Except Failure Text} (hdepth : it.depth ≠ 0)
    (h : (send "exit".toList none).outcome it = (result, after)) :
    leaveScope.attempt.outcome it =
      (result >>= leaveScope.read, { after with depth := after.depth - 1 }) := by
  have hobserve : (send "exit".toList none).observe.outcome it = (.ok result, after) := by
    rw [outcome_observe, h]
  simp only [attempt, Interpreter.leaveScope, Interpreter.run, bind_assoc]
  rw [outcome_bind_ok outcome_get, if_neg hdepth, bind_assoc, outcome_bind_ok hobserve]
  cases result <;> rfl

/-- Every request comes to one of its effects. -/
theorem effect (request : Request) (it : Interpreter) :
    Effect request it (request.attempt.outcome it).1 (request.attempt.outcome it).2 := by
  by_cases henter : request = enterScope
  · subst henter
    rw [outcome_enterScope rfl]
    exact .exchanged rfl (exchange it Probe.scopeLoop none)
  by_cases hleave : request = leaveScope
  · subst hleave
    by_cases hdepth : it.depth = 0
    · rw [outcome_leaveScope_unmatched hdepth]
      exact .withheld (if_pos hdepth)
    · rw [outcome_leaveScope hdepth rfl]
      exact .exchanged (if_neg hdepth) (exchange it "exit".toList none)
  rw [attempt_eq_ask request henter hleave it.depth]
  rcases hcommand : request.command it.depth with e | ⟨command, script⟩
  · rw [outcome_ask_error]
    exact .withheld hcommand
  · rw [outcome_ask_ok rfl]
    have h := Effect.exchanged hcommand (exchange it command script)
    rwa [depthAfter_of_ne henter hleave] at h

end Request

/-! ## Runs -/

/-- What is done with an interpreter. -/
inductive Operation
  | ask (request : Request)
  | close
  deriving DecidableEq, Repr

def Operation.attempt : Operation → Attempt Interpreter (List Text)
  | ask request => request.attempt
  | close => do Interpreter.close; return []

/-- An operation in a run, with the interpreter that it is carried out on. -/
structure Step where
  before : Interpreter
  operation : Operation

namespace Step

def result (step : Step) : Except Failure (List Text) :=
  (step.operation.attempt.outcome step.before).1

def after (step : Step) : Interpreter := (step.operation.attempt.outcome step.before).2

/-- The commands that the step has sent. -/
def commands (step : Step) : List Text :=
  (step.after.sent.drop step.before.sent.length).map (·.line)

end Step

/-- The steps of a run. -/
def steps : List Operation → Interpreter → List Step
  | [], _ => []
  | operation :: operations, it =>
    let step : Step := { before := it, operation }
    step :: steps operations step.after

/-- The interpreter at the end of a run. -/
def afterAll : List Operation → Interpreter → Interpreter
  | [], it => it
  | operation :: operations, it =>
    afterAll operations ({ before := it, operation } : Step).after

/-! ## Starting -/

/-- The interpreter is as starting it has left it. -/
def Started (settings : OracleSettings) (host : Host) (it : Interpreter) : Prop :=
  (connect settings host).outcome (Connected.create settings {}) = (.ok (), it)

theorem awaitPrompt_ok {it after : Interpreter} {text : Text}
    (h : awaitPrompt.outcome it = (.ok text, after)) :
    ∃ rest, after = { it with terminal := some rest } := by
  cases hterminal : it.terminal with
  | none =>
    rw [awaitPrompt, outcome_bind_ok outcome_get, hterminal] at h
    cases h
  | some terminal =>
    cases hreply : terminal.await? it.sentinel with
    | none =>
      rw [outcome_awaitPrompt_none hterminal hreply] at h
      cases h
    | some cut =>
      rw [outcome_awaitPrompt_some hterminal hreply, Prod.mk.injEq] at h
      exact ⟨cut.2, h.2.symm⟩

theorem awaitFirst_ok {it after : Interpreter} (h : awaitFirst.outcome it = (.ok (), after)) :
    ∃ rest, after = { it with terminal := some rest } := by
  rw [awaitFirst, outcome_bind_ok (outcome_observe _ _)] at h
  rcases hprompt : awaitPrompt.outcome it with ⟨e | text, rest⟩
  · rw [hprompt] at h
    cases e <;> cases h
  · rw [hprompt] at h
    cases h
    exact awaitPrompt_ok hprompt

theorem send_ok {it after : Interpreter} {command text : Text} {script : Option Script}
    (h : (send command script).outcome it = (.ok text, after)) :
    it.poisoned = false ∧ ∃ rest, after = { it.log command script with terminal := some rest } := by
  have hexchange := exchange it command script
  rw [h] at hexchange
  cases hexchange with
  | answered hpoisoned => exact ⟨hpoisoned, _, rfl⟩

/-- An interpreter that has been started is in use and in no context. -/
theorem Started.fresh {settings : OracleSettings} {host : Host} {it : Interpreter}
    (h : Started settings host it) : it.poisoned = false ∧ it.depth = 0 := by
  obtain ⟨⟨⟩, created, hcreated, h⟩ := outcome_bind_eq_ok.1 h
  cases hterminal : host.terminal with
  | none =>
    rw [hterminal] at h
    cases h
  | some terminal =>
    rw [hterminal] at h
    obtain ⟨⟨⟩, opened, hopened, h⟩ := outcome_bind_eq_ok.1 h
    obtain ⟨⟨⟩, shown, hshown, h⟩ := outcome_bind_eq_ok.1 h
    obtain ⟨reply, prepared, hprepared, h⟩ := outcome_bind_eq_ok.1 h
    obtain ⟨first, rfl⟩ := awaitFirst_ok hshown
    obtain ⟨hpoisoned, second, rfl⟩ := send_ok hprepared
    rw [outcome_ofExcept, Prod.mk.injEq] at hcreated
    obtain ⟨-, rfl⟩ := hcreated
    cases hopened
    cases h
    exact ⟨hpoisoned, rfl⟩

end Interpreter

end ShellFold
