import Mathlib
import ShellFold.Proofs.Resolve.Direct
import ShellFold.Proofs.Session.Opened

/-!
# Resolving agrees with direct evaluation

`Direct.Agrees` is the simulation: wherever a session mirrors a scope, an attempt on the session
has the result that an evaluation has on the scope, and the session mirrors the changed scope
afterwards. The rules of composition (`Agrees.bind`, `Agrees.inScope`) take it from the words,
where pending statements are handed over, to whole trees (`Node.agrees_resolveIn`).
-/

set_option autoImplicit false

namespace ShellFold

namespace Direct

variable {α β : Type}

theorem bind_ok {y : Direct α} {g : α → Direct β} {scope scope' : Scope} {a : α}
    (h : y scope = .ok (a, scope')) : (y >>= g) scope = g a scope' := by
  show (y scope >>= fun last => g last.1 last.2) = g a scope'
  rw [h]
  rfl

theorem bind_error {y : Direct α} {g : α → Direct β} {scope : Scope} {e : Failure}
    (h : y scope = .error e) : (y >>= g) scope = .error e := by
  show (y scope >>= fun last => g last.1 last.2) = .error e
  rw [h]
  rfl

theorem onCopy_ok {y : Direct α} {scope scope' : Scope} {a : α}
    (h : y scope = .ok (a, scope')) : onCopy y scope = .ok (a, scope) := by
  rw [onCopy, h]
  rfl

theorem onCopy_error {y : Direct α} {scope : Scope} {e : Failure} (h : y scope = .error e) :
    onCopy y scope = .error e := by
  rw [onCopy, h]
  rfl

/-- An assignment with a name and a value that can be written changes the table. -/
theorem assign_ok {name value : Text} (hname : Text.isName name = true) (hvalue : '\x00' ∉ value)
    (scope : Scope) : assign name value scope =
      .ok ((), { scope with vars := scope.vars.withValue name value }) := by
  rw [assign, if_neg (by simp [hname]), if_neg hvalue]
  rfl

/-- What becomes of a session is what becomes of a scope. -/
def Matches (saved : List Scope) (outcome : Except Failure α × Session Builtin) :
    Except Failure (α × Scope) → Prop
  | .ok (a, scope) => ∃ after, outcome = (.ok a, after) ∧ after.Mirrors saved scope
  | .error e => outcome.1 = .error e

/-- The attempt on a session does what the evaluation does on the scope that it mirrors. -/
def Agrees (saved : List Scope) (x : Attempt (Session Builtin) α) (y : Direct α) : Prop :=
  ∀ ⦃session : Session Builtin⦄ ⦃scope : Scope⦄, session.Mirrors saved scope →
    Matches saved (x.outcome session) (y scope)

namespace Agrees

variable {saved : List Scope} {x x' : Attempt (Session Builtin) α} {y y' : Direct α}

theorem pure (a : α) : Agrees saved (Pure.pure a) (Pure.pure a) :=
  fun session _ h => ⟨session, rfl, h⟩

theorem throw (e : Failure) : Agrees (α := α) saved (MonadExcept.throw e) (MonadExcept.throw e) :=
  fun _ _ _ => rfl

theorem ofExcept (result : Except Failure α) :
    Agrees saved (Attempt.ofExcept result) (Direct.ofExcept result) := by
  intro session scope h
  cases result with
  | ok a => exact ⟨session, rfl, h⟩
  | error e => rfl

theorem bind {f : α → Attempt (Session Builtin) β} {g : α → Direct β} (hx : Agrees saved x y)
    (hf : ∀ a, Agrees saved (f a) (g a)) : Agrees saved (x >>= f) (y >>= g) := by
  intro session scope h
  have hx := hx h
  cases hy : y scope with
  | ok last =>
    rw [hy] at hx
    obtain ⟨mid, hmid, hmirrors⟩ := hx
    rw [Attempt.outcome_bind_ok hmid, bind_ok hy]
    exact hf last.1 hmirrors
  | error e =>
    rw [hy] at hx
    have hpair : x.outcome session = (.error e, (x.outcome session).2) := by rw [← hx]
    rw [Attempt.outcome_bind_error hpair, bind_error hy]
    rfl

theorem ite {c : Prop} [Decidable c] (h : c → Agrees saved x y) (h' : ¬c → Agrees saved x' y') :
    Agrees saved (if c then x else x') (if c then y else y') := by
  split
  · next hc => exact h hc
  · next hc => exact h' hc

/-- A check that fails on both sides, or on neither. -/
theorem guard {c : Prop} [Decidable c] (e : Failure) {f : α → Attempt (Session Builtin) β}
    {g : α → Direct β} {x : Attempt (Session Builtin) β} {y : Direct β} (h : Agrees saved x y) :
    Agrees saved (if c then MonadExcept.throw e >>= f else x)
      (if c then MonadExcept.throw e >>= g else y) :=
  .ite (fun _ _ _ _ => rfl) fun _ => h

/-- Assignments can be recorded in every session that mirrors a scope. -/
theorem accepting {f : Session Builtin → Attempt (Session Builtin) α}
    (h : ∀ session : Session Builtin, session.acceptsAssignments = true →
      Agrees saved (f session) y) : Agrees saved (get >>= f) y := by
  intro session scope hmirrors
  rw [Attempt.outcome_bind_ok Attempt.outcome_get]
  exact h session hmirrors.acceptsAssignments hmirrors

/-! ## Sessions -/

/-- The pending statements are handed over before a word is expanded. -/
theorem expand (w : Word) (mode : Mode) :
    Agrees saved (Session.expand w mode) (Direct.expand w mode) := by
  intro session scope h
  obtain ⟨after, hexpand, hafter⟩ := h.expand w mode
  have hdirect : Direct.expand w mode scope =
      (scope.expandWord mode w).map fun fields => (fields, scope) := rfl
  rw [hdirect, hexpand]
  cases scope.expandWord mode w with
  | ok fields => exact ⟨after, rfl, hafter⟩
  | error e => rfl

/-- A recorded assignment is in force at once. -/
theorem assign (name value : Text) :
    Agrees saved (Session.recordAssignment name value) (Direct.assign name value) := by
  intro session scope h
  by_cases hname : Text.isName name = true
  · by_cases hvalue : '\x00' ∈ value
    · have hdirect : Direct.assign name value scope = .error (.early (.unquotable value)) := by
        rw [Direct.assign, if_neg (by simp [hname]), if_pos hvalue]
        rfl
      have hrender : (Statement.assign name value).render =
          .error (.early (.unquotable value)) := by
        rw [Statement.render, checkName_eq_ok.2 hname, quoteLiteral,
          (Text.quote?_eq_none_iff value).2 hvalue]
        rfl
      rw [hdirect]
      exact h.recordAssignment_error hrender
    · rw [assign_ok hname hvalue]
      exact h.recordAssignment hname hvalue
  · have hdirect : Direct.assign name value scope = .error (.early (.invalidName name)) := by
      rw [Direct.assign, if_pos (by simpa using hname)]
      rfl
    have hrender : (Statement.assign name value).render = .error (.early (.invalidName name)) := by
      rw [Statement.render, checkName, if_neg hname]
      rfl
    rw [hdirect]
    exact h.recordAssignment_error hrender

/-- A context of the session is a copy of the scope. -/
theorem inScope (h : ∀ saved, Agrees saved x y) :
    Agrees saved (Session.inScope x) (Direct.onCopy y) := by
  intro session scope hmirrors
  obtain ⟨inner, henter, hinner⟩ := hmirrors.enterScope
  have hx := h _ hinner
  cases hy : y scope with
  | ok last =>
    rw [hy] at hx
    obtain ⟨mid, hmid, hlast⟩ := hx
    obtain ⟨vars, journal, hlive, -⟩ := hlast.live
    rw [onCopy_ok hy]
    refine ⟨_, Session.outcome_inScope henter hmid hlive, ?_⟩
    exact Session.Settled.mirrors ⟨_, rfl, rfl⟩ hmirrors.writable
  | error e =>
    rw [hy] at hx
    rw [onCopy_error hy]
    exact Session.outcome_inScope_error henter hx

end Agrees

end Direct

open Direct

/-! ## Words, redirections and conditional expressions -/

section

variable (saved : List Scope)

theorem Word.agrees_resolveText (w : Word) (mode : Mode) :
    Agrees saved (w.resolveText mode) (w.directText mode) :=
  .bind (.expand w mode) fun _ => .ofExcept _

theorem Word.agrees_resolve (mode : Mode) (w : Word) :
    Agrees saved (w.resolve mode) (w.direct mode) := by
  refine .bind (.ofExcept _) fun verdict => ?_
  cases verdict with
  | untouched => exact .pure w
  | expand => exact .bind (w.agrees_resolveText saved mode) fun v => .pure _

theorem Word.agrees_resolveEach (mode : Mode) (ws : List Word) :
    Agrees saved (Word.resolveEach mode ws) (Word.directEach mode ws) := by
  induction ws with
  | nil => exact .pure []
  | cons w ws ih =>
    exact .bind (w.agrees_resolve saved mode) fun _ => .bind ih fun _ => .pure _

theorem Word.agrees_resolveArgument (w : Word) :
    Agrees saved w.resolveArgument w.directArgument := by
  refine .bind (.ofExcept _) fun verdict => ?_
  cases verdict with
  | untouched => exact .pure [w]
  | expand => exact .bind (.expand w .split) fun _ => .pure _

theorem Word.agrees_resolveArguments (ws : List Word) :
    Agrees saved (Word.resolveArguments ws) (Word.directArguments ws) := by
  induction ws with
  | nil => exact .pure []
  | cons w ws ih =>
    exact .bind (w.agrees_resolveArgument saved) fun _ => .bind ih fun _ => .pure _

theorem Word.agrees_resolveValue (w : Word) : Agrees saved w.resolveValue w.directValue := by
  refine .bind (.ofExcept _) fun verdict => .ite (fun _ => .pure _) fun _ => ?_
  exact .bind (w.agrees_resolveText saved .noSplit) fun _ => .pure _

theorem Redirection.agrees_resolve (r : Redirection) : Agrees saved r.resolve r.direct := by
  cases r with
  | file operator descriptor target =>
    cases descriptor with
    | fixed number => exact .bind (target.agrees_resolve saved .target) fun _ => .pure _
    | runtime name => exact .throw _
  | heredoc kind descriptor body =>
    cases descriptor with
    | fixed number =>
      cases kind with
      | expanding => exact .bind (body.agrees_resolve saved .heredoc) fun _ => .pure _
      | literal => exact .pure _
    | runtime name => cases kind <;> exact .throw _
  | duplicate operator descriptor target => cases descriptor <;> exact .throw _
  | close descriptor => cases descriptor <;> exact .throw _

theorem Redirection.agrees_resolveAll (rs : List Redirection) :
    Agrees saved (Redirection.resolveAll rs) (Redirection.directAll rs) := by
  induction rs with
  | nil => exact .pure []
  | cons r rs ih =>
    exact .bind (r.agrees_resolve saved) fun _ => .bind ih fun _ => .pure _

theorem Assignment.agrees_recordAll (assignments : List Assignment) :
    Agrees saved (Assignment.recordAll assignments) (Assignment.directAll assignments) := by
  induction assignments with
  | nil => exact .pure []
  | cons assignment rest ih =>
    refine .bind (assignment.value.agrees_resolveValue saved) fun (word, value) => ?_
    exact .bind (.assign assignment.name value) fun _ => .bind ih fun _ => .pure _

theorem Command.agrees_recordAssignments (flow : Flow) (c : Command) :
    Agrees saved (c.recordAssignments flow) (c.directAssignments flow) := by
  refine .ite (fun _ => .pure []) fun _ => .accepting fun session haccepts => ?_
  rw [if_neg (by simp [haccepts])]
  refine .guard _ (.guard _ ?_)
  exact Assignment.agrees_recordAll saved c.assignments

theorem Command.agrees_resolve (flow : Flow) (c : Command) :
    Agrees saved (c.resolve flow) (c.direct flow) := by
  refine .bind (c.agrees_recordAssignments saved flow) fun _ => ?_
  refine .bind (Word.agrees_resolveArguments saved c.arguments) fun _ => ?_
  exact .bind (Redirection.agrees_resolveAll saved c.redirections) fun _ => .pure _

theorem Word.agrees_mapM (operator : Option Word) :
    Agrees saved (operator.mapM (Word.resolve .noSplit)) (Word.directOption operator) := by
  cases operator with
  | none => exact .pure none
  | some w =>
    rw [Option.mapM, ← bind_pure_comp]
    exact .bind (w.agrees_resolve saved .noSplit) fun _ => .pure _

mutual

theorem Test.agrees_resolve : ∀ t : Test, Agrees saved t.resolve t.direct
  | .mk operator left right invert => by
    rw [Test.resolve, Test.direct]
    refine .bind (Word.agrees_mapM saved operator) fun _ => ?_
    refine .bind (Operand.agrees_resolve? left) fun _ => ?_
    exact .bind (Operand.agrees_resolve? right) fun _ => .pure _

theorem Operand.agrees_resolve? : ∀ o : Option Operand,
    Agrees saved (Operand.resolve? o) (Operand.directOption o)
  | none => .pure none
  | some (.word w) => .bind (w.agrees_resolve saved .noSplit) fun _ => .pure _
  | some (.nested t) => .bind (Test.agrees_resolve t) fun _ => .pure _

end

end

/-! ## Trees -/

mutual

theorem Node.agrees_resolveIn : ∀ (flow : Flow) (node : Node) (saved : List Scope),
    Agrees saved (node.resolveIn flow) (node.directIn flow)
  | flow, .command c, saved => .bind (c.agrees_resolve saved flow) fun _ => .pure _
  | flow, .pipe items background, saved =>
    .bind (Node.agrees_resolveStages flow items saved) fun _ => .pure _
  | flow, .subshell body redirections, saved => by
    refine .bind (.inScope (Node.agrees_resolveIn flow body)) fun _ => ?_
    exact .bind (Redirection.agrees_resolveAll saved redirections) fun _ => .pure _
  | flow, .background body redirections, saved => by
    refine .bind (.inScope (Node.agrees_resolveIn flow body)) fun _ => ?_
    exact .bind (Redirection.agrees_resolveAll saved redirections) fun _ => .pure _
  | flow, .conjunction left right, saved => by
    refine .bind (Node.agrees_resolveIn flow left saved) fun _ => ?_
    exact .bind (Node.agrees_resolveIn .perhaps right saved) fun _ => .pure _
  | flow, .disjunction left right, saved => by
    refine .bind (Node.agrees_resolveIn flow left saved) fun _ => ?_
    exact .bind (Node.agrees_resolveIn .perhaps right saved) fun _ => .pure _
  | flow, .sequence left right, saved => by
    refine .bind (Node.agrees_resolveIn flow left saved) fun _ => ?_
    exact .bind (Node.agrees_resolveIn flow right saved) fun _ => .pure _
  | flow, .negation body, saved =>
    .bind (Node.agrees_resolveIn .perhaps body saved) fun _ => .pure _
  | flow, .redirected body redirections, saved => by
    refine .bind (Node.agrees_resolveIn flow body saved) fun _ => ?_
    exact .bind (Redirection.agrees_resolveAll saved redirections) fun _ => .pure _
  | flow, .group body redirections, saved => by
    refine .bind (Node.agrees_resolveIn flow body saved) fun _ => ?_
    exact .bind (Redirection.agrees_resolveAll saved redirections) fun _ => .pure _
  | flow, .timed posix command, saved =>
    .bind (Node.agrees_resolveIn flow command saved) fun _ => .pure _
  | flow, .whileLoop test body, saved => by
    refine .bind (Node.agrees_resolveIn .perhaps test saved) fun _ => ?_
    exact .bind (Node.agrees_resolveIn .perhaps body saved) fun _ => .pure _
  | flow, .conditional condition thenBranch elseBranch, saved => by
    refine .bind (Node.agrees_resolveIn flow condition saved) fun _ => ?_
    refine .bind (Node.agrees_resolveIn .perhaps thenBranch saved) fun _ => ?_
    exact .bind (Node.agrees_resolve? elseBranch saved) fun _ => .pure _
  | flow, .caseOf argument arms, saved => by
    refine .bind (argument.agrees_resolve saved .noSplit) fun _ => ?_
    exact .bind (Arm.agrees_resolveAll arms saved) fun _ => .pure _
  | flow, .arithmetic body, saved =>
    .bind (Word.agrees_resolveEach saved .noSplit body) fun _ => .pure _
  | flow, .test t, saved => .bind (t.agrees_resolve saved) fun _ => .pure _
  | _, .function _ _, _ => .throw _
  | _, .forLoop _ _ _, _ => .throw _
  | _, .select _ _ _, _ => .throw _
  | _, .arithmeticFor _ _ _ _, _ => .throw _
  | _, .coprocess _ _, _ => .throw _

theorem Node.agrees_resolveStages : ∀ (flow : Flow) (nodes : List Node) (saved : List Scope),
    Agrees saved (Node.resolveStages flow nodes) (Node.directStages flow nodes)
  | _, [], _ => .pure []
  | flow, node :: rest, saved => by
    refine .bind (.inScope (Node.agrees_resolveIn flow node)) fun _ => ?_
    exact .bind (Node.agrees_resolveStages flow rest saved) fun _ => .pure _

theorem Node.agrees_resolve? : ∀ (node : Option Node) (saved : List Scope),
    Agrees saved (Node.resolve? node) (Node.directOption node)
  | none, _ => .pure none
  | some node, saved => .bind (Node.agrees_resolveIn .perhaps node saved) fun _ => .pure _

theorem Arm.agrees_resolveAll : ∀ (arms : List Arm) (saved : List Scope),
    Agrees saved (Arm.resolveAll arms) (Arm.directAll arms)
  | [], _ => .pure []
  | .mk patterns body :: rest, saved => by
    refine .bind (Word.agrees_resolveEach saved .noSplit patterns) fun _ => ?_
    refine .bind (Node.agrees_resolve? body saved) fun _ => ?_
    exact .bind (Arm.agrees_resolveAll rest saved) fun _ => .pure _

end

/-- A tree is resolved to what it becomes in the scope that the session mirrors. -/
theorem Session.Mirrors.resolve {session : Session Builtin} {saved : List Scope} {scope : Scope}
    (h : session.Mirrors saved scope) (node : Node) :
    (node.resolve.outcome session).1 = node.direct scope := by
  have hagrees := Node.agrees_resolveIn .always node saved h
  rw [Node.direct, Node.resolve]
  cases hdirect : node.directIn .always scope with
  | ok last =>
    rw [hdirect] at hagrees
    obtain ⟨after, houtcome, -⟩ := hagrees
    rw [houtcome]
    rfl
  | error e =>
    rw [hdirect] at hagrees
    exact hagrees

/-- **Neither the journal nor the contexts of the oracle can be seen.** In a session opened with a
plain environment every tree is resolved to what direct evaluation makes of it, or fails as that
does. -/
theorem resolve_eq_direct (settings : OracleSettings) {environment : Environment} {host : Host}
    (h : environment.IsPlain)
    (hdirectory :
      host.hasDirectory ((settings.directory? host.home).getD host.temporaryDirectory) = true)
    (node : Node) :
    ∃ session : Session Builtin, Session.start? settings environment host = (.ok (), session) ∧
      (node.resolve.outcome session).1 = node.direct environment.scope := by
  obtain ⟨session, hstart, hmirrors⟩ := Session.start?_mirrors settings h hdirectory
  exact ⟨session, hstart, hmirrors.resolve node⟩

/-- An assignment refers to the value before it, and one in a subshell ends with it. -/
theorem resolve_eq_direct_of_subshell :
    let environment : Environment :=
      { vars := Variables.ofList [("x".toList, { value := "it's".toList, exported := true })] }
    let host : Host := { hasDirectory := fun _ => true, fileText := fun _ => none }
    let assign (value : Word) : Node := .command ⟨none, [⟨"x".toList, value⟩], [], []⟩
    let echo (w : Word) : Node := .command ⟨none, [], [.ofText "echo".toList, w], []⟩
    let node : Node := .sequence (assign (.ofText "\"$x\n5\"".toList))
      (.sequence (.subshell (assign (.ofText "$x$x".toList)) []) (echo (.ofText "\"$x\"".toList)))
    (environment.IsPlain ∧ host.hasDirectory
        (((({} : OracleSettings).directory? host.home).getD host.temporaryDirectory)) = true) ∧
      (∃ session : Session Builtin, Session.start? {} environment host = (.ok (), session) ∧
        (node.resolve.outcome session).1 = node.direct environment.scope) ∧
      node.direct environment.scope = .ok (.sequence (assign (.literal "it's\n5".toList))
        (.sequence (.subshell (assign (.literal "it's\n5it's\n5".toList)) [])
          (echo (.literal "it's\n5".toList)))) := by
  have hplain : Environment.IsPlain
      { vars := Variables.ofList [("x".toList, { value := "it's".toList, exported := true })] } :=
    ⟨by decide, by decide, by decide, by decide, by decide, rfl⟩
  refine ⟨⟨hplain, rfl⟩, resolve_eq_direct {} hplain rfl _, ?_⟩
  cbv

end ShellFold
