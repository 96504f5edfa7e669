import Mathlib
import ShellFold.Proofs.Interpreter.Operation

/-!
# When an interpreter is given up

An interpreter is given up exactly where its output has run dry: from then on every operation that
would send a command is refused, writes nothing and reads nothing. An operation that fails in
another way, on bytes that are no text or on a reply that is not what the probe prints, leaves the
interpreter in use (`refused_iff_ranDry`). What carries this is that `poisoned` is set by such a
wait only, and never taken back.
-/

set_option autoImplicit false

namespace ShellFold

/-- The output of the interpreter has run dry. -/
def Failure.isDry : Failure → Bool
  | .stuck (.noPromptWithin _) => true
  | .io .terminalClosed => true
  | _ => false

@[simp] theorem Ending.failure_isDry (ending : Ending) (timeout : Nat) :
    (ending.failure timeout).isDry = true := by cases ending <;> rfl

namespace Interpreter

/-! ## Failures of the requests themselves -/

/-- The result is not that of a wait for a prompt that does not come. -/
def Answered {α : Type} (result : Except Failure α) : Prop :=
  ∀ e, result = .error e → e.isDry = false

namespace Answered

variable {α β : Type} {x : Except Failure α} {f : α → Except Failure β}

theorem ok (a : α) : Answered (Except.ok a) := nofun

theorem error {e : Failure} (h : e.isDry = false) :
    Answered (Except.error e : Except Failure α) := by
  rintro _ ⟨⟩
  exact h

theorem bind (hx : Answered x) (hf : ∀ a, Answered (f a)) : Answered (x >>= f) := by
  cases x with
  | error e => exact error (hx e rfl)
  | ok a => exact hf a

theorem mapM {f : α → Except Failure β} (h : ∀ a, Answered (f a)) (as : List α) :
    Answered (as.mapM f) := by
  induction as with
  | nil => exact ok []
  | cons a as ih =>
    rw [List.mapM_cons]
    exact (h a).bind fun b => ih.bind fun bs => ok (b :: bs)

theorem quoteLiteral (text : Text) : Answered (ShellFold.quoteLiteral text) := by
  rw [ShellFold.quoteLiteral]
  split
  · exact ok _
  · exact error rfl

theorem fields? (reply : Text) : Answered (Probe.fields? reply) := by
  rw [Probe.fields?]
  split
  · split
    · split
      · exact ok _
      · exact error rfl
    · exact error rfl
  · exact error rfl

theorem value? (reply : Text) : Answered (Probe.value? reply) := by
  rw [Probe.value?]
  split
  · exact ok _
  · exact error rfl

/-- A request that cannot make its command has not waited for anything. -/
theorem command (request : Request) (depth : Nat) : Answered (request.command depth) := by
  cases request with
  | expand s mode =>
    cases mode with
    | split => exact ok _
    | target => exact ok _
    | noSplit =>
      rw [Request.command]
      split
      · exact ok _
      · exact error rfl
    | heredoc =>
      rw [Request.command]
      split
      · exact error rfl
      · exact ok _
  | source script => exact (quoteLiteral _).bind fun _ => ok _
  | setPositional values => exact (mapM quoteLiteral values).bind fun _ => ok _
  | leaveScope =>
    rw [Request.command]
    split
    · exact error rfl
    · exact ok _
  | _ => exact ok _

/-- A reply that a request cannot read has still come. -/
theorem read (request : Request) (reply : Text) : Answered (request.read reply) := by
  cases request with
  | expand s mode =>
    cases mode with
    | split => exact fields? reply
    | target =>
      refine (fields? reply).bind fun fields => ?_
      split
      · exact ok _
      · exact error rfl
    | noSplit => exact (value? reply).bind fun _ => ok _
    | heredoc => exact ok _
  | _ => exact ok _

end Answered

/-! ## One step -/

namespace Request

variable {request : Request} {it after : Interpreter} {result : Except Failure (List Text)}

/-- A request leaves an interpreter given up if it was, or if its own wait ran dry. -/
theorem Effect.poisoned_iff (h : Effect request it result after) :
    after.poisoned = true ↔ it.poisoned = true ∨ ∃ e, result = .error e ∧ e.isDry = true := by
  have hkept (hanswered : Answered result) (hafter : after.poisoned = it.poisoned) :
      after.poisoned = true ↔ it.poisoned = true ∨ ∃ e, result = .error e ∧ e.isDry = true := by
    rw [hafter, iff_self_or]
    rintro ⟨e, he, hdry⟩
    rw [hanswered e he] at hdry
    cases hdry
  cases h with
  | withheld hcommand => exact hkept (.error (Answered.command request it.depth _ hcommand)) rfl
  | exchanged hcommand hexchange =>
    cases hexchange with
    | refused hpoisoned => exact hkept (.error rfl) rfl
    | closed hpoisoned hterminal => exact hkept (.error rfl) rfl
    | answered hpoisoned hterminal hreply htext => exact hkept (.read request _) rfl
    | garbled hpoisoned hterminal hreply htext => exact hkept (.error rfl) rfl
    | dry hpoisoned hterminal hreply =>
      exact iff_of_true rfl (.inr ⟨_, rfl, Ending.failure_isDry _ _⟩)

theorem Effect.refused (h : Effect request it result after) (hpoisoned : it.poisoned = true)
    {command : Text × Option Script} (hcommand : request.command it.depth = .ok command) :
    result = .error (.stuck .desynchronized) ∧ after.sent = it.sent ∧
      after.terminal = it.terminal := by
  cases h with
  | withheld hwithheld =>
    rw [hwithheld] at hcommand
    cases hcommand
  | exchanged _ hexchange =>
    cases hexchange with
    | refused => exact ⟨rfl, rfl, rfl⟩
    | closed hsound | answered hsound | garbled hsound | dry hsound =>
      rw [hpoisoned] at hsound
      cases hsound

end Request

namespace Step

/-- The step has waited for a prompt that did not come. -/
def RanDry (step : Step) : Prop := ∃ e, step.result = .error e ∧ e.isDry = true

theorem poisoned_after (step : Step) :
    step.after.poisoned = true ↔ step.before.poisoned = true ∨ step.RanDry := by
  obtain ⟨before, operation⟩ := step
  cases operation with
  | ask request => exact (request.effect before).poisoned_iff
  | close =>
    refine (or_iff_left ?_).symm
    rintro ⟨e, he, -⟩
    cases he

end Step

/-- The operation would send a command if the replies could be told apart. -/
def Operation.Sends (operation : Operation) (it : Interpreter) : Prop :=
  (operation.attempt.outcome { it with poisoned := false }).2.sent ≠ it.sent

/-- What would send a command are the requests that can make theirs. -/
theorem Operation.sends_iff {request : Request} {it : Interpreter} :
    (Operation.ask request).Sends it ↔ ∃ command, request.command it.depth = .ok command := by
  have heffect := request.effect { it with poisoned := false }
  unfold Sends
  change (request.attempt.outcome { it with poisoned := false }).2.sent ≠ it.sent ↔ _
  generalize request.attempt.outcome { it with poisoned := false } = outcome at heffect
  obtain ⟨result, after⟩ := outcome
  cases heffect with
  | withheld hcommand =>
    refine iff_of_false (fun h => h rfl) ?_
    rintro ⟨command, h⟩
    rw [hcommand] at h
    cases h
  | exchanged hcommand hexchange =>
    refine iff_of_true ?_ ⟨_, hcommand⟩
    cases hexchange with
    | refused hpoisoned => cases hpoisoned
    | closed | answered | garbled | dry => exact log_sent_ne _ _ _

/-- The step is refused: it writes nothing and reads nothing. -/
structure Step.Refused (step : Step) : Prop where
  result : step.result = .error (.stuck .desynchronized)
  sent : step.after.sent = step.before.sent
  terminal : step.after.terminal = step.before.terminal

/-- What is refused is what would send a command to an interpreter that has been given up. -/
theorem Step.refused_iff {step : Step} (hsends : step.operation.Sends step.before) :
    step.Refused ↔ step.before.poisoned = true := by
  obtain ⟨before, operation⟩ := step
  cases operation with
  | close => exact absurd rfl hsends
  | ask request =>
    by_cases hpoisoned : before.poisoned = true
    · refine iff_of_true ?_ hpoisoned
      obtain ⟨command, hcommand⟩ := Operation.sends_iff.1 hsends
      obtain ⟨hresult, hsent, hterminal⟩ := (request.effect before).refused hpoisoned hcommand
      exact ⟨hresult, hsent, hterminal⟩
    · refine iff_of_false (fun h => hsends ?_) hpoisoned
      rw [Bool.not_eq_true] at hpoisoned
      rw [← hpoisoned]
      exact h.sent

/-! ## Runs -/

theorem poisoned_afterAll (operations : List Operation) (it : Interpreter) :
    (afterAll operations it).poisoned = true ↔
      it.poisoned = true ∨ ∃ step ∈ steps operations it, step.RanDry := by
  induction operations generalizing it with
  | nil => simp [afterAll, steps]
  | cons operation operations ih =>
    rw [afterAll, ih, Step.poisoned_after, steps]
    simp only [List.mem_cons, exists_eq_or_imp, or_assoc]

/-- **An operation is refused exactly when some wait before it has run dry.** This is any operation
that would send a command, at any point of any run: a reply that is no text, or that is not what
the probe prints, does not keep a later operation from being carried out. -/
theorem refused_iff_ranDry {settings : OracleSettings} {host : Host} {it : Interpreter}
    (hstarted : Started settings host it) (operations : List Operation) {operation : Operation}
    (hsends : operation.Sends (afterAll operations it)) :
    ({ before := afterAll operations it, operation } : Step).Refused ↔
      ∃ step ∈ steps operations it, step.RanDry := by
  rw [Step.refused_iff hsends, poisoned_afterAll, hstarted.fresh.1]
  exact or_iff_right Bool.false_ne_true

/-- A reply that is no text does not keep the next command from being sent; the end of the output
does. -/
theorem refused_iff_ranDry_of_garbled :
    let settings : OracleSettings := { sentinel := ">".toList }
    let host : Host :=
      { hasDirectory := fun _ => false, fileText := fun _ => none
        terminal := some { unread := [62, 62, 255, 62] } }
    let it : Interpreter :=
      { sentinel := ">".toList, timeout := settings.timeout
        terminal := some { unread := [255, 62] }, sent := [{ line := Probe.preparing }] }
    let options : Operation := .ask .shellOptions
    let refusedAfter (operations : List Operation) : Prop :=
      ({ before := afterAll operations it, operation := options } : Step).Refused
    Started settings host it ∧ options.Sends (afterAll [options] it) ∧
      options.Sends (afterAll [options, options] it) ∧
      ¬refusedAfter [options] ∧ refusedAfter [options, options] := by
  intro settings host it options refusedAfter
  have hstarted : Started settings host it := by
    unfold Started
    cbv
  have hfirst : options.Sends (afterAll [options] it) := Operation.sends_iff.2 ⟨_, rfl⟩
  have hsecond : options.Sends (afterAll [options, options] it) := Operation.sends_iff.2 ⟨_, rfl⟩
  refine ⟨hstarted, hfirst, hsecond, mt (refused_iff_ranDry hstarted [options] hfirst).1 ?_,
    (refused_iff_ranDry hstarted [options, options] hsecond).2 ⟨_, .tail _ (.head _), ?_⟩⟩
  · have hgarbled : ({ before := it, operation := options } : Step).result =
        .error (.stuck .invalidEncoding) := by cbv
    rintro ⟨step, hstep, e, he, hdry⟩
    rw [List.mem_singleton.1 hstep, hgarbled] at he
    cases he
    cases hdry
  · refine ⟨.stuck (.noPromptWithin settings.timeout), ?_, rfl⟩
    cbv

end Interpreter

end ShellFold
