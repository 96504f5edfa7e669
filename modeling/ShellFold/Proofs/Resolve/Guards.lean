import ShellFold.Proofs.Resolve.Parts

/-!
# Conditions on the way to a command

A node may run some of its parts only under a condition (`Node.guards`), and a place in a tree is
guarded when the path to it goes through such a part (`Node.IsGuarded`). The flow that a part is
resolved under remembers whether its place is guarded (`Node.flow_reach`), so a tree that is
resolved assigns only where no condition is (`Node.assignsPlainly_of_resolve`).
-/

set_option autoImplicit false

namespace ShellFold

/-- Whether a node runs its part of a given number only under a condition, or as a condition. -/
def Node.guards : Node → Nat → Bool
  | .conjunction _ _, i | .disjunction _ _, i | .conditional _ _ _, i => i != 0
  | .negation _, _ | .whileLoop _ _, _ | .caseOf _ _, _ => true
  | _, _ => false

/-- The path leads through a part that is run only under a condition. -/
def Node.IsGuarded (node : Node) (path : List Nat) : Prop :=
  ∃ before i after ancestor, path = before ++ i :: after ∧ node.part? before = some ancestor ∧
    ancestor.guards i = true

/-- Every command of the tree that assigns does nothing else, at a place that is not guarded. -/
def Node.AssignsPlainly (node : Node) : Prop :=
  ∀ path c, node.part? path = some (.command c) → c.assignments ≠ [] →
    c.arguments = [] ∧ ¬ node.IsGuarded path

/-! ## Paths -/

theorem Node.part?_cons {node part : Node} {i : Nat} (hi : node.parts[i]? = some part)
    (path : List Nat) : node.part? (i :: path) = part.part? path := by
  rw [part?, hi]

theorem Node.not_isGuarded_nil (node : Node) : ¬ node.IsGuarded [] := by
  rintro ⟨before, i, after, ancestor, heq, -, -⟩
  cases before <;> cases heq

theorem Node.isGuarded_cons {node part : Node} {i : Nat} (hi : node.parts[i]? = some part)
    {path : List Nat} :
    node.IsGuarded (i :: path) ↔ node.guards i = true ∨ part.IsGuarded path := by
  constructor
  · rintro ⟨_ | ⟨j, before⟩, k, after, ancestor, heq, hpart, hguards⟩
    · cases heq
      cases hpart
      exact .inl hguards
    · rw [List.cons_append, List.cons.injEq] at heq
      obtain ⟨rfl, rfl⟩ := heq
      rw [part?_cons hi] at hpart
      exact .inr ⟨before, k, after, ancestor, rfl, hpart, hguards⟩
  · rintro (hguards | ⟨before, k, after, ancestor, rfl, hpart, hguards⟩)
    · exact ⟨[], i, path, node, rfl, rfl, hguards⟩
    · exact ⟨i :: before, k, after, ancestor, rfl, by rw [part?_cons hi, hpart], hguards⟩

/-! ## Flow -/

/-- The flow that a part of a node runs under. -/
def Node.flowOf (flow : Flow) (node : Node) (i : Nat) : Flow :=
  if node.guards i then .perhaps else flow

theorem Node.flowOf_eq_always {flow : Flow} {node : Node} {i : Nat} :
    node.flowOf flow i = .always ↔ flow = .always ∧ node.guards i = false := by
  unfold flowOf
  split <;> simp_all

section

variable {σ : Type} [Oracle σ] {session start : Session σ} {flow flow' : Flow}

open Attempt (outcome_bind_eq_ok)

theorem Arm.flow_approach {arms : List Arm} : ∀ {i : Nat} {session : Session σ},
    (Arm.approach arms i).outcome session = (.ok flow', start) → flow' = .perhaps := by
  induction arms with
  | nil =>
    intro _ _ h
    cases h
    rfl
  | cons arm arms ih =>
    obtain ⟨patterns, body⟩ := arm
    intro i session h
    cases body with
    | none =>
      obtain ⟨_, _, -, h⟩ := outcome_bind_eq_ok.1 h
      exact ih h
    | some body =>
      cases i with
      | zero =>
        obtain ⟨_, _, -, h⟩ := outcome_bind_eq_ok.1 h
        cases h
        rfl
      | succ i =>
        obtain ⟨_, _, -, h⟩ := outcome_bind_eq_ok.1 h
        obtain ⟨_, _, -, h⟩ := outcome_bind_eq_ok.1 h
        exact ih h

theorem Node.flow_approach {node part : Node} {i : Nat} (hi : node.parts[i]? = some part)
    (h : (node.approach flow i).outcome session = (.ok flow', start)) :
    flow' = node.flowOf flow i := by
  cases node with
  | command _ | arithmetic _ | test _ => cases hi
  | pipe items _ =>
    obtain ⟨_, _, -, h⟩ := outcome_bind_eq_ok.1 h
    obtain ⟨_, _, -, h⟩ := outcome_bind_eq_ok.1 h
    cases h
    rfl
  | subshell _ _ | background _ _ =>
    obtain ⟨_, _, -, h⟩ := outcome_bind_eq_ok.1 h
    cases h
    rfl
  | conjunction _ _ | disjunction _ _ | sequence _ _ =>
    match i, hi with
    | 0, _ =>
      cases h
      rfl
    | 1, _ =>
      obtain ⟨_, _, -, h⟩ := outcome_bind_eq_ok.1 h
      cases h
      rfl
  | whileLoop _ _ =>
    match i, hi with
    | 0, _ =>
      cases h
      rfl
    | 1, _ =>
      obtain ⟨_, _, -, h⟩ := outcome_bind_eq_ok.1 h
      cases h
      rfl
  | conditional _ _ _ =>
    match i with
    | 0 =>
      cases h
      rfl
    | 1 =>
      obtain ⟨_, _, -, h⟩ := outcome_bind_eq_ok.1 h
      cases h
      rfl
    | i + 2 =>
      obtain ⟨_, _, -, h⟩ := outcome_bind_eq_ok.1 h
      obtain ⟨_, _, -, h⟩ := outcome_bind_eq_ok.1 h
      cases h
      rfl
  | caseOf _ arms =>
    obtain ⟨_, _, -, h⟩ := outcome_bind_eq_ok.1 h
    exact Arm.flow_approach h
  | negation _ | timed _ _ | redirected _ _ | group _ _ | function _ _ | forLoop _ _ _
  | select _ _ _ | arithmeticFor _ _ _ _ | coprocess _ _ =>
    cases h
    rfl

/-- A part is resolved as one that always runs just if no condition stands on the way to it. -/
theorem Node.flow_reach {path : List Nat} : ∀ {flow : Flow} {node part : Node}
    {session : Session σ}, node.part? path = some part →
    (node.reach flow path).outcome session = (.ok flow', start) →
    (flow' = .always ↔ flow = .always ∧ ¬ node.IsGuarded path) := by
  induction path with
  | nil =>
    intro flow node part session _ h
    cases h
    rw [and_iff_left node.not_isGuarded_nil]
  | cons i path ih =>
    intro flow node part session hpart h
    rw [part?] at hpart
    rw [reach] at h
    split at hpart
    · next child hi =>
      obtain ⟨mid, _, happroach, h⟩ := outcome_bind_eq_ok.1 h
      rw [hi] at h
      rw [ih hpart h, flow_approach hi happroach, flowOf_eq_always, isGuarded_cons hi, not_or,
        Bool.not_eq_true, and_assoc]
    · cases hpart

/-! ## Assignments -/

/-- Assignments are recorded in a session that takes them, of a command without arguments that runs
on every path. -/
theorem Command.recordAssignments_eq_ok {c : Command} {assignments : List Assignment}
    {after : Session σ} (hassigns : c.assignments ≠ [])
    (h : (c.recordAssignments flow).outcome session = (.ok assignments, after)) :
    session.acceptsAssignments = true ∧ c.arguments = [] ∧ flow = .always ∧
      (Assignment.recordAll c.assignments).outcome session = (.ok assignments, after) := by
  rw [recordAssignments, if_neg hassigns] at h
  obtain ⟨_, _, hget, h⟩ := outcome_bind_eq_ok.1 h
  cases hget
  obtain ⟨haccepts, h⟩ := Attempt.outcome_guard_eq_ok.1 h
  obtain ⟨harguments, h⟩ := Attempt.outcome_guard_eq_ok.1 h
  obtain ⟨hflow, h⟩ := Attempt.outcome_guard_eq_ok.1 h
  refine ⟨by simpa using haccepts, Decidable.not_not.1 harguments, ?_, h⟩
  cases flow with
  | always => rfl
  | perhaps => exact absurd rfl hflow

/-- A session that takes assignments records those of such a command. -/
theorem Command.outcome_recordAssignments {c : Command}
    (haccepts : session.acceptsAssignments = true) (harguments : c.arguments = []) :
    (c.recordAssignments .always).outcome session =
      (Assignment.recordAll c.assignments).outcome session := by
  rw [recordAssignments]
  split
  · next hnone => rw [hnone, Assignment.recordAll]
  · rw [Attempt.outcome_bind_ok Attempt.outcome_get, if_neg (by simp [haccepts]),
      if_neg (fun hne => hne harguments), if_neg (by decide)]

/-- A tree that is resolved assigns only in commands of their own, and only where no condition
stands on the way. -/
theorem Node.assignsPlainly_of_resolve {node node' : Node} {after : Session σ}
    (h : node.resolve.outcome session = (.ok node', after)) : node.AssignsPlainly := by
  intro path c hpart hassigns
  obtain ⟨_, -, flow', start, _, hreach, hcommand⟩ := exists_part? h hpart
  obtain ⟨c', _, hresolve, -⟩ := outcome_bind_eq_ok.1 hcommand
  obtain ⟨assignments, _, hrecord, -⟩ := outcome_bind_eq_ok.1 hresolve
  obtain ⟨-, harguments, hflow, -⟩ := Command.recordAssignments_eq_ok hassigns hrecord
  exact ⟨harguments, ((flow_reach hpart hreach).1 hflow).2⟩

end

end ShellFold
