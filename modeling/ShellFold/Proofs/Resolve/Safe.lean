import ShellFold.Builtin
import ShellFold.Proofs.Resolve.Guards
import ShellFold.Safety

/-!
# The pre-filter lets through what can be resolved

An attempt `Requires` a check that holds wherever the attempt succeeds. Resolving a tree requires
the checks of the pre-filter, part by part: each word is scanned before it is used, and what the
pre-filter rejects outright is refused. So no tree that can be resolved, in a session with any
oracle, is filtered out (`isSafe_of_resolve`).
-/

set_option autoImplicit false

namespace ShellFold

namespace Attempt

variable {σ α β : Type} {x : Attempt σ α} {f : α → Attempt σ β} {p q : Bool}

/-- The attempt succeeds only if the check holds. -/
def Requires (x : Attempt σ α) (check : Bool) : Prop :=
  ∀ ⦃s a t⦄, x.outcome s = (.ok a, t) → check = true

namespace Requires

theorem nothing (x : Attempt σ α) : Requires x true := fun _ _ _ _ => rfl

theorem throw (e : Failure) : Requires (σ := σ) (α := α) (MonadExcept.throw e) p := by
  rintro _ _ _ ⟨⟩

theorem ofExcept (result : Except Failure α) :
    Requires (σ := σ) (Attempt.ofExcept result) result.isOk := by
  intro _ a _ h
  exact isOk_iff.2 ⟨a, congrArg Prod.fst h⟩

theorem bind (hx : Requires x p) (hf : ∀ a, Requires (f a) q) : Requires (x >>= f) (p && q) := by
  intro _ _ _ h
  obtain ⟨a, _, hxs, hfs⟩ := outcome_bind_eq_ok.1 h
  rw [hx hxs, hf a hfs]
  rfl

theorem first (hx : Requires x p) : Requires (x >>= f) p := by
  intro _ _ _ h
  obtain ⟨_, _, hxs, -⟩ := outcome_bind_eq_ok.1 h
  exact hx hxs

end Requires

end Attempt

open Attempt (Requires)

section

variable {σ : Type} [Oracle σ]

theorem Session.requires_inScope {α : Type} {body : Attempt (Session σ) α} {p : Bool}
    (hbody : Requires body p) : Requires (Session.inScope body) p := by
  intro _ _ _ h
  obtain ⟨_, _, -, hlast, -⟩ := Session.inScope_eq_ok h
  exact hbody hlast

/-! ## Words, redirections and conditional expressions -/

theorem Word.requires_resolve (mode : Mode) (w : Word) :
    Requires (w.resolve mode : Attempt (Session σ) Word) w.isScannable :=
  .first (.ofExcept w.scan)

theorem Word.requires_resolveEach (mode : Mode) (ws : List Word) :
    Requires (Word.resolveEach mode ws : Attempt (Session σ) (List Word))
      (ws.all Word.isScannable) := by
  induction ws with
  | nil => exact .nothing _
  | cons w ws ih => exact .bind (w.requires_resolve mode) fun _ => .first ih

theorem Word.requires_resolveArguments (ws : List Word) :
    Requires (Word.resolveArguments ws : Attempt (Session σ) (List Word))
      (ws.all Word.isScannable) := by
  induction ws with
  | nil => exact .nothing _
  | cons w ws ih => exact .bind (.first (.ofExcept w.scan)) fun _ => .first ih

theorem Word.requires_mapM (operator : Option Word) :
    Requires (operator.mapM (Word.resolve .noSplit) : Attempt (Session σ) (Option Word))
      (operator.all Word.isScannable) := by
  cases operator with
  | none => exact .nothing _
  | some w =>
    show Requires (some <$> w.resolve .noSplit) w.isScannable
    rw [← bind_pure_comp]
    exact .first (w.requires_resolve .noSplit)

theorem Redirection.requires_resolve (r : Redirection) :
    Requires (r.resolve : Attempt (Session σ) Redirection) r.isSafe := by
  cases r with
  | file operator descriptor target =>
    cases descriptor with
    | fixed number => exact .first (target.requires_resolve .target)
    | runtime name => exact .throw _
  | heredoc kind descriptor body =>
    cases descriptor with
    | fixed number =>
      cases kind with
      | expanding => exact .first (body.requires_resolve .heredoc)
      | literal => exact .nothing _
    | runtime name => cases kind <;> exact .throw _
  | duplicate operator descriptor target => cases descriptor <;> exact .throw _
  | close descriptor => cases descriptor <;> exact .throw _

theorem Redirection.requires_resolveAll (rs : List Redirection) :
    Requires (Redirection.resolveAll rs : Attempt (Session σ) (List Redirection))
      (rs.all Redirection.isSafe) := by
  induction rs with
  | nil => exact .nothing _
  | cons r rs ih => exact .bind r.requires_resolve fun _ => .first ih

mutual

theorem Test.requires_resolve : ∀ t : Test,
    Requires (t.resolve : Attempt (Session σ) Test) t.isSafe
  | .mk operator left right invert => by
    rw [Test.isSafe, Test.resolve, Bool.and_assoc]
    refine .bind (Word.requires_mapM operator) fun _ => ?_
    exact .bind (Operand.requires_resolve? left) fun _ => .first (Operand.requires_resolve? right)

theorem Operand.requires_resolve? : ∀ o : Option Operand,
    Requires (Operand.resolve? o : Attempt (Session σ) (Option Operand)) (Operand.isSafe? o)
  | none => .nothing _
  | some (.word w) => .first (w.requires_resolve .noSplit)
  | some (.nested t) => .first (Test.requires_resolve t)

end

/-! ## Commands and trees -/

theorem Assignment.requires_recordAll (assignments : List Assignment) :
    Requires (Assignment.recordAll assignments : Attempt (Session σ) (List Assignment))
      (assignments.all (·.value.isScannable)) := by
  induction assignments with
  | nil => exact .nothing _
  | cons assignment rest ih =>
    refine .bind (.first (.ofExcept assignment.value.scan)) fun (word, value) => ?_
    -- recording requires nothing that the pre-filter looks at
    intro _ _ _ h
    obtain ⟨_, _, -, h⟩ := Attempt.outcome_bind_eq_ok.1 h
    exact ih.first h

theorem Command.requires_recordAssignments (flow : Flow) (c : Command) :
    Requires (c.recordAssignments flow : Attempt (Session σ) (List Assignment))
      (c.assignments.all (·.value.isScannable)) := by
  intro _ _ _ h
  by_cases hassigns : c.assignments = []
  · rw [hassigns]
    rfl
  · exact Assignment.requires_recordAll _ (recordAssignments_eq_ok hassigns h).2.2.2

theorem Command.requires_resolve (flow : Flow) (c : Command) :
    Requires (c.resolve flow : Attempt (Session σ) Command) c.isSafe := by
  rw [Command.isSafe, Bool.and_assoc]
  refine .bind (c.requires_recordAssignments flow) fun _ => ?_
  exact .bind (Word.requires_resolveArguments c.arguments) fun _ =>
    .first (Redirection.requires_resolveAll c.redirections)

mutual

theorem Node.requires_resolveIn : ∀ (flow : Flow) (node : Node),
    Requires (node.resolveIn flow : Attempt (Session σ) Node) node.isSafe
  | flow, .command c => .first (c.requires_resolve flow)
  | flow, .pipe items _ => .first (Node.requires_resolveStages flow items)
  | flow, .subshell body redirections | flow, .background body redirections =>
    .bind (Session.requires_inScope (Node.requires_resolveIn flow body)) fun _ =>
      .first (Redirection.requires_resolveAll redirections)
  | flow, .redirected body redirections | flow, .group body redirections =>
    .bind (Node.requires_resolveIn flow body) fun _ =>
      .first (Redirection.requires_resolveAll redirections)
  | flow, .conjunction left right | flow, .disjunction left right | flow, .sequence left right =>
    .bind (Node.requires_resolveIn flow left) fun _ => .first (Node.requires_resolveIn _ right)
  | _, .negation body => .first (Node.requires_resolveIn .perhaps body)
  | flow, .timed _ command => .first (Node.requires_resolveIn flow command)
  | _, .whileLoop test body =>
    .bind (Node.requires_resolveIn .perhaps test) fun _ =>
      .first (Node.requires_resolveIn .perhaps body)
  | flow, .conditional condition thenBranch elseBranch => by
    rw [Node.isSafe, Bool.and_assoc]
    refine .bind (Node.requires_resolveIn flow condition) fun _ => ?_
    exact .bind (Node.requires_resolveIn .perhaps thenBranch) fun _ =>
      .first (Node.requires_resolve? elseBranch)
  | _, .caseOf argument arms =>
    .bind (argument.requires_resolve .noSplit) fun _ => .first (Arm.requires_resolveAll arms)
  | _, .arithmetic body => .first (Word.requires_resolveEach .noSplit body)
  | _, .test t => .first t.requires_resolve
  | _, .function _ _ | _, .forLoop _ _ _ | _, .select _ _ _ | _, .arithmeticFor _ _ _ _
  | _, .coprocess _ _ => .throw _

theorem Node.requires_resolveStages : ∀ (flow : Flow) (nodes : List Node),
    Requires (Node.resolveStages flow nodes : Attempt (Session σ) (List Node))
      (Node.areSafe nodes)
  | _, [] => .nothing _
  | flow, node :: rest =>
    .bind (Session.requires_inScope (Node.requires_resolveIn flow node)) fun _ =>
      .first (Node.requires_resolveStages flow rest)

theorem Node.requires_resolve? : ∀ node : Option Node,
    Requires (Node.resolve? node : Attempt (Session σ) (Option Node)) (Node.isSafe? node)
  | none => .nothing _
  | some node => .first (Node.requires_resolveIn .perhaps node)

theorem Arm.requires_resolveAll : ∀ arms : List Arm,
    Requires (Arm.resolveAll arms : Attempt (Session σ) (List Arm)) (Arm.areSafe arms)
  | [] => .nothing _
  | .mk patterns body :: rest => by
    rw [Arm.areSafe, Bool.and_assoc]
    refine .bind (Word.requires_resolveEach .noSplit patterns) fun _ => ?_
    exact .bind (Node.requires_resolve? body) fun _ => .first (Arm.requires_resolveAll rest)

end

/-- **The pre-filter rejects nothing that can be resolved**, in whatever session and with whatever
oracle. -/
theorem isSafe_of_resolve {node node' : Node} {session after : Session σ}
    (h : node.resolve.outcome session = (.ok node', after)) : node.isSafe = true :=
  Node.requires_resolveIn .always node h

end

/-- A subshell that assigns, with a here-document that is not expanded. -/
theorem isSafe_of_resolve_subshell :
    let word (s : String) : Word := .ofText s.toList
    let node : Node := .subshell (.command ⟨none, [⟨"x".toList, word "1"⟩], [], []⟩)
      [.heredoc .literal (.fixed 0) (word "$(id)")]
    let session : Session Builtin :=
      { settings := {}, environment := {}
        host := { hasDirectory := fun _ => true, fileText := fun _ => none }
        live := some ({}, { path := [] }) }
    node.resolve.outcome session = (.ok node, session) ∧ node.isSafe = true := by
  intro word node session
  have hresolve : node.resolve.outcome session = (.ok node, session) := rfl
  exact ⟨hresolve, isSafe_of_resolve hresolve⟩

end ShellFold
