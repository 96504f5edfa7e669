import ShellFold.Proofs.Session.Context

/-!
# Clients of sessions

A client carries out operations on a session, in contexts and outside, as what it has seen before
lets it. Unlike the steps of `Steps` these may close the session and start it anew, also within a
context and after failures, and the surroundings of the session may change in between.
`Client.states` are the sessions between two operations, those within contexts included; what every
operation maintains holds in all of them (`Client.forall_states`).
-/

set_option autoImplicit false

namespace ShellFold

namespace Session

/-- What is done with a session in one go, with a value of type `α` where it succeeds. -/
inductive Operation : Type → Type
  | expandText (s : Text) (mode : Mode) : Operation (List Text)
  | expand (w : Word) (mode : Mode) : Operation (List Text)
  | recordAssignment (name value : Text) : Operation Unit
  | resolve (node : Node) : Operation Node
  | resolveOrKeep (node : Node) : Operation Outcome
  | close : Operation Unit
  | reopen : Operation Unit
  /-- The surroundings of the session become others; the files of journals are not theirs. -/
  | move (host : Host) : Operation Unit

def Operation.attempt {α : Type} : Operation α → Attempt (Session Builtin) α
  | expandText s mode => Session.expandText s mode
  | expand w mode => Session.expand w mode
  | recordAssignment name value => Session.recordAssignment name value
  | resolve node => node.resolve
  | resolveOrKeep node => node.resolveOrKeep
  | close => Session.close
  | reopen => Session.reopen
  | move host => modify fun session => { session with host }

/-- A client that ends with a value of type `α` or fails. -/
inductive Client : Type → Type 1
  | pure {α : Type} (a : α) : Client α
  | throw {α : Type} (e : Failure) : Client α
  | carryOut {α : Type} (operation : Operation α) : Client α
  /-- Goes on with what has come of the first part, whether it has failed or not. -/
  | andThen {α β : Type} (first : Client β) (next : Except Failure β → Client α) : Client α
  /-- Looks at the session. -/
  | look {α : Type} (next : Session Builtin → Client α) : Client α
  | inContext {α : Type} (body : Client α) : Client α

namespace Client

def attempt : {α : Type} → Client α → Attempt (Session Builtin) α
  | _, pure a => Pure.pure a
  | _, throw e => MonadExcept.throw e
  | _, carryOut operation => operation.attempt
  | _, andThen first next => do (next (← first.attempt.observe)).attempt
  | _, look next => do (next (← get)).attempt
  | _, inContext body => inScope body.attempt

/-- The sessions before, between and after the operations of a client. -/
def states : {α : Type} → Client α → Session Builtin → List (Session Builtin)
  | _, pure _, session => [session]
  | _, throw _, session => [session]
  | _, carryOut operation, session => [session, (operation.attempt.outcome session).2]
  | _, andThen first next, session =>
    let (result, after) := first.attempt.outcome session
    first.states session ++ (next result).states after
  | _, look next, session => (next session).states session
  | _, inContext body, session =>
    let within := match enterScope.outcome session with
      | (.ok (), entered) => body.states entered
      | (.error _, _) => []
    session :: within ++ [((inScope body.attempt).outcome session).2]

end Client

/-! ## What operations maintain -/

open Attempt (Maintains)

variable {α : Type} {P : Session Builtin → Prop}

section

variable (hexpand : ∀ s mode, Maintains P (Session.expandText s mode))
  (hrecord : ∀ name value, Maintains P (Session.recordAssignment name value))
  (henter : Maintains P enterScope) (hleave : Maintains P leaveScope)
include hexpand hrecord henter hleave

theorem maintains_resolve (node : Node) : Maintains P node.resolve :=
  node.program_resolve.maintains (P := fun _ : Unit => P) (fun s => ⟨s, rfl⟩)
    (fun s mode _ _ => hexpand s mode) (fun name value _ => hrecord name value)
    (fun hbody _ => maintains_inScope henter.after henter.after (hleave ·) (hbody ())) ()

theorem maintains_resolveOrKeep (node : Node) : Maintains P node.resolveOrKeep := by
  refine (maintains_resolve hexpand hrecord henter hleave node).observe.bind fun result => ?_
  cases result with
  | ok resolved => exact .pure _
  | error e => exact .ite (.pure _) (.throw e)

end

namespace Client

/-- **What every operation maintains holds between any two of them**, and after the last. -/
theorem forall_states
    (hoperation : ∀ {β : Type} (operation : Operation β), Maintains P operation.attempt)
    (henter : Maintains P enterScope) (hleave : Maintains P leaveScope) (client : Client α) :
    Maintains P client.attempt ∧
      ∀ session, P session → ∀ state ∈ client.states session, P state := by
  induction client with
  | pure a =>
    refine ⟨.pure a, fun session h state hstate => ?_⟩
    rwa [List.mem_singleton.1 hstate]
  | throw e =>
    refine ⟨.throw e, fun session h state hstate => ?_⟩
    rwa [List.mem_singleton.1 hstate]
  | carryOut operation =>
    refine ⟨hoperation operation, fun session h state hstate => ?_⟩
    simp only [states, List.mem_cons, List.not_mem_nil, or_false] at hstate
    rcases hstate with rfl | rfl
    · exact h
    · exact hoperation operation h
  | andThen first next ihfirst ihnext =>
    refine ⟨ihfirst.1.observe.bind fun result => (ihnext result).1,
      fun session h state hstate => ?_⟩
    rcases List.mem_append.1 hstate with hstate | hstate
    · exact ihfirst.2 session h state hstate
    · exact (ihnext _).2 _ (ihfirst.1 h) state hstate
  | look next ih =>
    exact ⟨Maintains.get.bind fun session => (ih session).1,
      fun session h state hstate => (ih session).2 session h state hstate⟩
  | inContext body ih =>
    have hscope := maintains_inScope henter.after henter.after (hleave ·) ih.1
    refine ⟨hscope, fun session h state hstate => ?_⟩
    rw [states, List.cons_append, List.mem_cons, List.mem_append, List.mem_singleton] at hstate
    rcases hstate with rfl | hstate | rfl
    · exact h
    · have hentered := henter h
      rcases hout : enterScope.outcome session with ⟨e | ⟨⟩, entered⟩
      · rw [hout] at hstate
        cases hstate
      · rw [hout] at hstate hentered
        exact ih.2 entered hentered state hstate
    · exact hscope h

end Client

end Session

end ShellFold
