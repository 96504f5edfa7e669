import ShellFold.Proofs.Interpreter.Poisoned

/-!
# The depth of an interpreter

A context is a loop that `enterScope` starts in the interpreter and `leaveScope` has it leave.
While the interpreter is open and in use, `depth` is the number of loops that run, except for those
whose first reply was no text (`depth_add_exits`): such a loop has been started, but `enterScope`
has failed before it counted it. The depth is right exactly where there is none of these
(`depth_add_exits_iff`).
-/

set_option autoImplicit false

namespace ShellFold.Interpreter

/-! ## What a step adds to the accounts -/

namespace Step

/-- The number of loops that the step, if it begins a context, has had the interpreter start. -/
def loops (step : Step) : Nat :=
  if step.operation = .ask .enterScope then step.commands.count Probe.scopeLoop else 0

/-- The number of loops that the step, if it ends a context, has had the interpreter leave. -/
def exits (step : Step) : Nat :=
  if step.operation = .ask .leaveScope then step.commands.count "exit".toList else 0

/-- The step was to begin a context and has been answered by bytes that are no text. -/
def losesLoop (step : Step) : Bool :=
  match step.operation, step.result with
  | .ask .enterScope, .error (.stuck .invalidEncoding) => true
  | _, _ => false

theorem losesLoop_iff {step : Step} :
    step.losesLoop = true ↔
      step.operation = .ask .enterScope ∧ step.result = .error (.stuck .invalidEncoding) := by
  unfold losesLoop
  split
  · next hoperation hresult => exact iff_of_true rfl ⟨hoperation, hresult⟩
  · next hother => exact iff_of_false Bool.false_ne_true fun h => hother h.1 h.2

end Step

namespace Request

variable {request : Request} {it after : Interpreter} {result : Except Failure (List Text)}

/-- Where the interpreter stays open and in use, what is sent is answered. -/
theorem Effect.of_open (h : Effect request it result after) {command : Text}
    {script : Option Script} (hcommand : request.command it.depth = .ok (command, script))
    (hsound : after.poisoned = false) (hopen : after.terminal ≠ none) :
    after.sent = (it.log command script).sent ∧ after.depth = request.depthAfter it.depth result ∧
      ((∃ reply, result = request.read reply) ∨ result = .error (.stuck .invalidEncoding)) := by
  cases h with
  | withheld hwithheld =>
    rw [hwithheld] at hcommand
    cases hcommand
  | exchanged hsent hexchange =>
    rw [hsent] at hcommand
    cases hcommand
    cases hexchange with
    | refused hpoisoned =>
      cases hpoisoned.symm.trans hsound
    | closed _ hterminal => exact absurd hterminal hopen
    | answered => exact ⟨rfl, rfl, .inl ⟨_, rfl⟩⟩
    | garbled => exact ⟨rfl, rfl, .inr rfl⟩
    | dry => cases hsound

theorem Effect.of_withheld (h : Effect request it result after) {e : Failure}
    (hcommand : request.command it.depth = .error e) : after = it := by
  cases h with
  | withheld _ => rfl
  | exchanged hsent _ =>
    rw [hsent] at hcommand
    cases hcommand

/-- A request changes the depth where it begins or ends a context, whatever comes of it. -/
theorem Effect.depth (h : Effect request it result after) :
    after.depth = request.depthAfter it.depth result := by
  cases h with
  | withheld hcommand =>
    cases request with
    | leaveScope =>
      -- the end of a context is withheld only where none was begun
      by_cases hzero : it.depth = 0
      · rw [hzero]
        rfl
      · rw [command, if_neg hzero] at hcommand
        cases hcommand
    | _ => rfl
  | exchanged _ hexchange =>
    cases hexchange <;> rfl

theorem depth_attempt (request : Request) (it : Interpreter) :
    (request.attempt.outcome it).2.depth =
      request.depthAfter it.depth (request.attempt.outcome it).1 :=
  (request.effect it).depth

end Request

/-! ## What the oracle does with the depth -/

theorem depth_expand (s : Text) (mode : Mode) (it : Interpreter) :
    ((expand s mode).outcome it).2.depth = it.depth :=
  Request.depth_attempt (.expand s mode) it

theorem depth_source (script : Script) (it : Interpreter) :
    ((source script).outcome it).2.depth = it.depth := by
  have h := Request.depth_attempt (.source script) it
  rwa [Request.attempt, Attempt.outcome_bind_pure] at h

/-- A context that could be begun is counted, one that could not is not. -/
theorem depth_enterScope (it : Interpreter) :
    (enterScope.outcome it).2.depth =
      if (enterScope.outcome it).1.isOk then it.depth + 1 else it.depth := by
  have h := Request.depth_attempt .enterScope it
  rw [Request.attempt, Attempt.outcome_bind_pure] at h
  rcases hout : enterScope.outcome it with ⟨e | ⟨⟩, after⟩
  · rw [hout] at h
    exact h
  · rw [hout] at h
    exact h

/-- A context that is ended is not counted any more, whatever comes of its end. -/
theorem depth_leaveScope (it : Interpreter) :
    (leaveScope.outcome it).2.depth = it.depth - 1 := by
  have h := Request.depth_attempt .leaveScope it
  rwa [Request.attempt, Attempt.outcome_bind_pure] at h

theorem escape_scopeLoop : Probe.escape Probe.scopeLoop = Probe.scopeLoop := by cbv

namespace Step

variable {step : Step}

theorem loops_of_ne (h : step.operation ≠ .ask .enterScope) : step.loops = 0 := if_neg h

theorem exits_of_ne (h : step.operation ≠ .ask .leaveScope) : step.exits = 0 := if_neg h

theorem losesLoop_of_ne (h : step.operation ≠ .ask .enterScope) : step.losesLoop = false := by
  rw [← Bool.not_eq_true, losesLoop_iff]
  exact fun hloses => h hloses.1

theorem commands_log (step : Step) {command : Text} {script : Option Script}
    (hsent : step.after.sent = (step.before.log command script).sent)
    (hescape : Probe.escape command = command) : step.commands = [command] := by
  rw [commands, hsent, log, List.drop_left, List.map_singleton, hescape, ite_self]

/-- A context that is begun runs a loop, which is counted unless its first reply is no text. -/
theorem depth_after_enterScope (hoperation : step.operation = .ask .enterScope)
    (hsound : step.after.poisoned = false) (hopen : step.after.terminal ≠ none) :
    step.loops = 1 ∧ step.after.depth + step.losesLoop.toNat = step.before.depth + 1 := by
  obtain ⟨before, operation⟩ := step
  cases hoperation
  obtain ⟨hsent, hdepth, hresult⟩ := (Request.effect .enterScope before).of_open rfl hsound hopen
  have hcommands := commands_log ⟨before, .ask .enterScope⟩ hsent escape_scopeLoop
  refine ⟨by rw [loops, if_pos rfl, hcommands, List.count_singleton_self], ?_⟩
  have hdepth : (after ⟨before, .ask .enterScope⟩).depth =
      Request.enterScope.depthAfter before.depth (result ⟨before, .ask .enterScope⟩) := hdepth
  rcases hresult with ⟨reply, hreply⟩ | hgarbled
  · have hok : result ⟨before, .ask .enterScope⟩ = .ok [] := hreply
    have hkept : losesLoop ⟨before, .ask .enterScope⟩ = false := by
      rw [← Bool.not_eq_true, losesLoop_iff, hok]
      rintro ⟨-, hfailed⟩
      cases hfailed
    rw [hkept, hdepth, hok]
    rfl
  · have herror : result ⟨before, .ask .enterScope⟩ = .error (.stuck .invalidEncoding) := hgarbled
    rw [losesLoop_iff.2 ⟨rfl, herror⟩, hdepth, herror]
    rfl

/-- A context that is ended has its loop left. -/
theorem depth_after_leaveScope (hoperation : step.operation = .ask .leaveScope)
    (hsound : step.after.poisoned = false) (hopen : step.after.terminal ≠ none) :
    step.after.depth + step.exits = step.before.depth := by
  obtain ⟨before, operation⟩ := step
  cases hoperation
  have heffect := Request.effect .leaveScope before
  by_cases hzero : before.depth = 0
  · have hafter : after ⟨before, .ask .leaveScope⟩ = before :=
      heffect.of_withheld (if_pos hzero)
    rw [exits, commands, hafter, List.drop_length]
    rfl
  · obtain ⟨hsent, hdepth, -⟩ := heffect.of_open (if_neg hzero) hsound hopen
    have hcommands := commands_log ⟨before, .ask .leaveScope⟩ hsent (by decide)
    have hdepth : (after ⟨before, .ask .leaveScope⟩).depth = before.depth - 1 := hdepth
    rw [exits, if_pos rfl, hcommands, List.count_singleton_self, hdepth]
    exact Nat.succ_pred_eq_of_ne_zero hzero

/-- **One step**: where the interpreter is open and in use after it, the depth has changed by the
loops that the step has started and left, apart from one that it has lost. -/
theorem depth_after (step : Step) (hsound : step.after.poisoned = false)
    (hopen : step.after.terminal ≠ none) :
    step.after.depth + step.exits + step.losesLoop.toNat = step.before.depth + step.loops := by
  by_cases henter : step.operation = .ask .enterScope
  · obtain ⟨hloops, hdepth⟩ := depth_after_enterScope henter hsound hopen
    rw [hloops, exits_of_ne (by simp [henter])]
    exact hdepth
  rw [loops_of_ne henter, losesLoop_of_ne henter]
  by_cases hleave : step.operation = .ask .leaveScope
  · exact depth_after_leaveScope hleave hsound hopen
  rw [exits_of_ne hleave]
  obtain ⟨before, operation⟩ := step
  cases operation with
  | close => exact absurd rfl hopen
  | ask request =>
    have hkept := Request.depthAfter_of_ne (fun h : request = .enterScope => henter (by rw [h]))
      (fun h => hleave (by rw [h]))
    rcases hcommand : request.command before.depth with e | ⟨command, script⟩
    · exact congrArg depth ((request.effect before).of_withheld hcommand)
    · obtain ⟨-, hdepth, -⟩ := (request.effect before).of_open hcommand hsound hopen
      exact hdepth.trans (hkept _ _)

/-- A closed interpreter stays closed. -/
theorem terminal_after (hclosed : step.before.terminal = none) : step.after.terminal = none := by
  obtain ⟨before, operation⟩ := step
  cases operation with
  | close => rfl
  | ask request =>
    have heffect := request.effect before
    change (request.attempt.outcome before).2.terminal = none
    generalize request.attempt.outcome before = outcome at heffect
    obtain ⟨result, after⟩ := outcome
    cases heffect with
    | withheld => exact hclosed
    | exchanged _ hexchange =>
      cases hexchange with
      | refused | closed => exact hclosed
      | answered _ hterminal | garbled _ hterminal | dry _ hterminal =>
        cases hclosed.symm.trans hterminal

end Step

/-! ## Runs -/

theorem terminal_afterAll (operations : List Operation) {it : Interpreter}
    (hclosed : it.terminal = none) : (afterAll operations it).terminal = none := by
  induction operations generalizing it with
  | nil => exact hclosed
  | cons operation operations ih => exact ih (Step.terminal_after hclosed)

theorem sound_of_afterAll {operations : List Operation} {it : Interpreter}
    (hsound : (afterAll operations it).poisoned = false) : it.poisoned = false := by
  rw [← Bool.not_eq_true] at hsound ⊢
  exact fun hpoisoned => hsound ((poisoned_afterAll operations it).2 (.inl hpoisoned))

/-- **The accounts of a run**: the loops that it has started are those that are counted, those that
it has left and those that it has lost. -/
theorem depth_add_exits (operations : List Operation) {it : Interpreter}
    (hsound : (afterAll operations it).poisoned = false)
    (hopen : (afterAll operations it).terminal ≠ none) :
    (afterAll operations it).depth + ((steps operations it).map Step.exits).sum +
        (steps operations it).countP Step.losesLoop =
      it.depth + ((steps operations it).map Step.loops).sum := by
  induction operations generalizing it with
  | nil => rfl
  | cons operation operations ih =>
    let step : Step := { before := it, operation }
    have hrest := @ih step.after hsound hopen
    have hstep := step.depth_after (sound_of_afterAll hsound)
      (mt (terminal_afterAll operations) hopen)
    have hlost : (step :: steps operations step.after).countP Step.losesLoop =
        (steps operations step.after).countP Step.losesLoop + step.losesLoop.toNat := by
      rw [List.countP_cons]
      cases step.losesLoop <;> rfl
    change (afterAll operations step.after).depth +
        ((step :: steps operations step.after).map Step.exits).sum +
        (step :: steps operations step.after).countP Step.losesLoop =
      step.before.depth + ((step :: steps operations step.after).map Step.loops).sum
    rw [hlost, List.map_cons, List.map_cons, List.sum_cons, List.sum_cons]
    omega

/-- **The depth of an interpreter that is open and in use is the number of the loops that run in
it**, which are the loops that `enterScope` has started less those that `leaveScope` has left,
exactly where no loop has been started that was answered by bytes that are no text. -/
theorem depth_add_exits_iff {settings : OracleSettings} {host : Host} {it : Interpreter}
    (hstarted : Started settings host it) (operations : List Operation)
    (hsound : (afterAll operations it).poisoned = false)
    (hopen : (afterAll operations it).terminal ≠ none) :
    (afterAll operations it).depth + ((steps operations it).map Step.exits).sum =
        ((steps operations it).map Step.loops).sum ↔
      ∀ step ∈ steps operations it, step.losesLoop = false := by
  have haccounts := depth_add_exits operations hsound hopen
  rw [hstarted.fresh.2, Nat.zero_add] at haccounts
  rw [← haccounts, Nat.left_eq_add, List.countP_eq_zero]
  simp only [Bool.not_eq_true]

/-- A context that is begun and answered by a text is counted; one that is answered by bytes that
are no text is not, though its loop runs. -/
theorem depth_add_exits_iff_of_garbled :
    let settings : OracleSettings := { sentinel := ">".toList }
    let host : Host :=
      { hasDirectory := fun _ => false, fileText := fun _ => none
        terminal := some { unread := [62, 62, 62, 255, 62] } }
    let it : Interpreter :=
      { sentinel := ">".toList, timeout := settings.timeout
        terminal := some { unread := [62, 255, 62] }, sent := [{ line := Probe.preparing }] }
    let enter : Operation := .ask .enterScope
    let inUse (operations : List Operation) : Prop :=
      (afterAll operations it).poisoned = false ∧ (afterAll operations it).terminal ≠ none
    let counted (operations : List Operation) : Prop :=
      (afterAll operations it).depth + ((steps operations it).map Step.exits).sum =
        ((steps operations it).map Step.loops).sum
    Started settings host it ∧ (inUse [enter] ∧ counted [enter]) ∧
      inUse [enter, enter] ∧ ¬counted [enter, enter] := by
  intro settings host it enter inUse counted
  have hstarted : Started settings host it := by
    unfold Started
    cbv
  let first : Interpreter :=
    { it.log Probe.scopeLoop none with terminal := some { unread := [255, 62] }, depth := 1 }
  let second : Interpreter :=
    { first.log Probe.scopeLoop none with terminal := some { unread := [] } }
  have hfirst : enter.attempt.outcome it = (.ok [], first) := by
    have hreply : Terminal.await? { unread := [62, 255, 62] } ['>'] =
        some ([], { unread := [255, 62] }) := by cbv
    have htext : decodeReply? [] = some [] := by cbv
    refine (Request.outcome_enterScope (outcome_send_some rfl rfl hreply _ _)).trans ?_
    rw [htext]
    rfl
  have hsecond : enter.attempt.outcome first = (.error (.stuck .invalidEncoding), second) := by
    have hreply : Terminal.await? { unread := [255, 62] } ['>'] =
        some ([255], { unread := [] }) := by cbv
    have htext : decodeReply? [255] = none := by cbv
    refine (Request.outcome_enterScope (outcome_send_some rfl rfl hreply _ _)).trans ?_
    rw [htext]
    rfl
  have hone : afterAll [enter] it = first := congrArg Prod.snd hfirst
  have htwo : afterAll [enter, enter] it = second := by
    change afterAll [enter] (afterAll [enter] it) = second
    rw [hone]
    exact congrArg Prod.snd hsecond
  have hinUse : inUse [enter] := by
    refine ⟨congrArg poisoned hone, ?_⟩
    rw [hone]
    exact Option.some_ne_none _
  have hinUse' : inUse [enter, enter] := by
    refine ⟨congrArg poisoned htwo, ?_⟩
    rw [htwo]
    exact Option.some_ne_none _
  refine ⟨hstarted, ⟨hinUse, (depth_add_exits_iff hstarted [enter] hinUse.1 hinUse.2).2 ?_⟩,
    hinUse', mt (depth_add_exits_iff hstarted [enter, enter] hinUse'.1 hinUse'.2).1 fun h => ?_⟩
  · intro step hstep
    have hanswered : (Step.mk it enter).result = .ok [] := congrArg Prod.fst hfirst
    rw [List.mem_singleton.1 hstep, ← Bool.not_eq_true, Step.losesLoop_iff, hanswered]
    rintro ⟨-, hfailed⟩
    cases hfailed
  · have hgarbled : (Step.mk (Step.mk it enter).after enter).result =
        .error (.stuck .invalidEncoding) := by
      rw [show (Step.mk it enter).after = first from hone]
      exact congrArg Prod.fst hsecond
    have hkept := h _ (.tail _ (.head _))
    rw [Step.losesLoop_iff.2 ⟨rfl, hgarbled⟩] at hkept
    cases hkept

end ShellFold.Interpreter
