import ShellFold.Proofs.Resolve.Untouched

/-!
# Literal trees

A word that the scanner leaves untouched is not put to the oracle, so resolving it is no step at all
(`Word.resolve_untouched`), and so it is with redirections, conditional expressions and commands of
such words. What is left of resolving a tree of them are the contexts of its parts, which begin and
end without a trace in a session where nothing is pending: such a tree stays as it is, and so does
the session (`resolve_literal`).
-/

set_option autoImplicit false

namespace ShellFold

/-! ## Words, redirections and conditional expressions -/

section

variable {σ : Type} [Oracle σ]

namespace Word

/-- None of the words at some positions has anything to expand. -/
def Untouched (positions : List (Word × Mode)) : Prop :=
  ∀ p ∈ positions, p.1.scan = .ok .untouched

theorem untouched_nil : Untouched [] := fun _ h => absurd h List.not_mem_nil

theorem untouched_cons {p : Word × Mode} {ps : List (Word × Mode)} :
    Untouched (p :: ps) ↔ p.1.scan = .ok .untouched ∧ Untouched ps := List.forall_mem_cons

theorem untouched_append {ps qs : List (Word × Mode)} :
    Untouched (ps ++ qs) ↔ Untouched ps ∧ Untouched qs := List.forall_mem_append

theorem resolve_untouched {w : Word} (h : w.scan = .ok .untouched) (mode : Mode) :
    (w.resolve mode : Attempt (Session σ) Word) = pure w := by
  rw [resolve, h]
  rfl

theorem resolveEach_untouched {mode : Mode} {ws : List Word}
    (h : Untouched (ws.map fun w => (w, mode))) :
    (resolveEach mode ws : Attempt (Session σ) (List Word)) = pure ws := by
  induction ws with
  | nil => rfl
  | cons w ws ih =>
    rw [List.map_cons, untouched_cons] at h
    rw [resolveEach, resolve_untouched h.1, pure_bind, ih h.2, pure_bind]

theorem resolveArguments_untouched {ws : List Word}
    (h : Untouched (ws.map fun w => (w, .split))) :
    (resolveArguments ws : Attempt (Session σ) (List Word)) = pure ws := by
  induction ws with
  | nil => rfl
  | cons w ws ih =>
    rw [List.map_cons, untouched_cons] at h
    have hargument : (w.resolveArgument : Attempt (Session σ) (List Word)) = pure [w] := by
      rw [resolveArgument, h.1]
      rfl
    rw [resolveArguments, hargument, pure_bind, ih h.2, pure_bind]
    rfl

theorem resolveValue_plain {w : Word} (hscan : w.scan = .ok .untouched)
    (hplain : w.isPlain .untouched = true) :
    (w.resolveValue : Attempt (Session σ) (Word × Text)) = pure (w, w.value) := by
  rw [resolveValue, hscan, Attempt.ofExcept_ok_bind, if_pos hplain]

theorem mapM_untouched {operator : Option Word}
    (h : Untouched (operator.toList.map fun w => (w, .noSplit))) :
    (operator.mapM (Word.resolve .noSplit) : Attempt (Session σ) (Option Word)) =
      pure operator := by
  cases operator with
  | none => rfl
  | some w =>
    show (some <$> w.resolve .noSplit : Attempt (Session σ) (Option Word)) = _
    rw [resolve_untouched (h _ (.head _)), map_pure]

end Word

namespace Redirection

/-- Whether the redirection is of a file or a here-document, on a fixed descriptor. -/
def isFixed : Redirection → Bool
  | file _ (.fixed _) _ | heredoc _ (.fixed _) _ => true
  | _ => false

theorem resolve_untouched {r : Redirection} (hfixed : r.isFixed = true)
    (h : Word.Untouched r.positions) :
    (r.resolve : Attempt (Session σ) Redirection) = pure r := by
  cases r with
  | file operator descriptor target =>
    cases descriptor with
    | fixed number =>
      rw [resolve]
      show (target.resolve .target >>= fun target => pure (file operator (.fixed number) target) :
        Attempt (Session σ) Redirection) = _
      rw [Word.resolve_untouched (h _ (.head _)), pure_bind]
    | runtime name => cases hfixed
  | heredoc kind descriptor body =>
    cases descriptor with
    | fixed number =>
      cases kind with
      | expanding =>
        show (body.resolve .heredoc >>= fun body => pure (heredoc .expanding (.fixed number) body) :
          Attempt (Session σ) Redirection) = _
        rw [Word.resolve_untouched (h _ (.head _)), pure_bind]
      | literal => rfl
    | runtime name => cases hfixed
  | duplicate operator descriptor target => cases hfixed
  | close descriptor => cases hfixed

theorem resolveAll_untouched {rs : List Redirection} (hfixed : ∀ r ∈ rs, r.isFixed = true)
    (h : Word.Untouched (rs.flatMap positions)) :
    (resolveAll rs : Attempt (Session σ) (List Redirection)) = pure rs := by
  induction rs with
  | nil => rfl
  | cons r rs ih =>
    rw [List.forall_mem_cons] at hfixed
    rw [List.flatMap_cons, Word.untouched_append] at h
    rw [resolveAll, resolve_untouched hfixed.1 h.1, pure_bind, ih hfixed.2 h.2, pure_bind]

end Redirection

mutual

theorem Test.resolve_untouched : ∀ {t : Test}, Word.Untouched t.positions →
    (t.resolve : Attempt (Session σ) Test) = pure t
  | .mk operator left right invert, h => by
    rw [Test.positions, Word.untouched_append, Word.untouched_append] at h
    rw [Test.resolve, Word.mapM_untouched h.1, pure_bind, Operand.resolve?_untouched h.2.1,
      pure_bind, Operand.resolve?_untouched h.2.2, pure_bind]

theorem Operand.resolve?_untouched : ∀ {o : Option Operand},
    Word.Untouched (Operand.positions? o) →
    (Operand.resolve? o : Attempt (Session σ) (Option Operand)) = pure o
  | none, _ => by rw [Operand.resolve?]
  | some (.word w), h => by
    rw [Operand.resolve?, Word.resolve_untouched (h _ (.head _)), pure_bind]
  | some (.nested t), h => by rw [Operand.resolve?, Test.resolve_untouched h, pure_bind]

end

theorem Command.resolve_untouched {c : Command} (hassigns : c.assignments = [])
    (hfixed : ∀ r ∈ c.redirections, r.isFixed = true)
    (h : Word.Untouched c.positions) (flow : Flow) :
    (c.resolve flow : Attempt (Session σ) Command) = pure c := by
  obtain ⟨lineNumber, assignments, arguments, redirections⟩ := c
  subst hassigns
  rw [positions, Word.untouched_append, Word.untouched_append] at h
  have hnone : (recordAssignments flow ⟨lineNumber, [], arguments, redirections⟩ :
      Attempt (Session σ) (List Assignment)) = pure [] := by
    rw [recordAssignments, if_pos rfl]
  rw [resolve, hnone, pure_bind, Word.resolveArguments_untouched h.2.1, pure_bind,
    Redirection.resolveAll_untouched hfixed h.2.2, pure_bind]

end

/-! ## Literal trees -/

/-- The redirections of a node itself. -/
def Node.redirections : Node → List Redirection
  | .command c => c.redirections
  | .subshell _ redirections | .background _ redirections | .redirected _ redirections
  | .group _ redirections => redirections
  | _ => []

/-- The tree assigns and binds nothing, redirects only files and here-documents on fixed
descriptors, and has nothing to expand. -/
structure Node.IsLiteral (node : Node) : Prop where
  assigns : node.assignments = []
  binds : ∀ path part, node.part? path = some part → part.binds = false
  fixed : ∀ path part, node.part? path = some part → ∀ r ∈ part.redirections, r.isFixed = true
  untouched : ∀ p ∈ node.positions, p.1.scan = .ok .untouched

theorem Node.IsLiteral.redirections {node : Node} (h : node.IsLiteral) :
    ∀ r ∈ node.redirections, r.isFixed = true :=
  h.fixed [] node rfl

theorem Node.IsLiteral.part {node part : Node} (h : node.IsLiteral) {i : Nat}
    (hi : node.parts[i]? = some part) : part.IsLiteral := by
  have hcovers := Node.covers_part (h.binds [] node rfl) hi
  refine ⟨?_, fun path p hp => ?_, fun path p hp => ?_, fun p hp => ?_⟩
  · exact List.subset_nil.1 (h.assigns ▸ hcovers.assignments)
  · exact h.binds (i :: path) p (by rw [Node.part?_cons hi, hp])
  · exact h.fixed (i :: path) p (by rw [Node.part?_cons hi, hp])
  · exact h.untouched p (hcovers.positions hp)

/-- What holds at each path of a tree holds of the root and at each path of the parts. -/
theorem Node.forall_part? {P : Node → Prop} {node : Node} (h : P node)
    (hparts : ∀ part ∈ node.parts, ∀ path p, part.part? path = some p → P p) :
    ∀ path p, node.part? path = some p → P p := by
  rintro (_ | ⟨i, path⟩) p hp
  · cases hp
    exact h
  · rw [part?] at hp
    split at hp
    · next part hi => exact hparts part (List.mem_of_getElem? hi) path p hp
    · cases hp

namespace Session

variable {α β : Type}

/-- Where nothing is pending, the attempt yields the value and leaves the session as it is. -/
def Fixes (x : Attempt (Session Builtin) α) (a : α) : Prop :=
  ∀ ⦃session builtin⦄, session.Settled builtin → x.outcome session = (.ok a, session)

namespace Fixes

variable {x : Attempt (Session Builtin) α} {f : α → Attempt (Session Builtin) β} {a : α} {b : β}

theorem pure (a : α) : Fixes (Pure.pure a) a := fun _ _ _ => rfl

theorem of_eq (h : x = Pure.pure a) : Fixes x a := h ▸ pure a

theorem bind (hx : Fixes x a) (hf : Fixes (f a) b) : Fixes (x >>= f) b := by
  intro session builtin h
  rw [Attempt.outcome_bind_ok (hx h), hf h]

/-- A context takes the state back that it began with, and has dropped nothing. -/
theorem inScope (hx : Fixes x a) : Fixes (Session.inScope x) a := by
  rintro session builtin ⟨journal, hlive, hpending⟩
  have henter := outcome_enterScope hlive hpending
  rw [outcome_inScope henter (hx ⟨journal, rfl, hpending⟩) rfl]
  have hdiscard : journal.discard = journal := by rw [Journal.discard, ← hpending]
  show (Except.ok a, { session with live := some (builtin, journal.discard) }) = _
  rw [hdiscard, ← hlive]

end Fixes

end Session

open Session (Fixes)

mutual

theorem Node.fixes_resolveIn : ∀ {flow : Flow} {node : Node}, node.IsLiteral →
    Fixes (node.resolveIn flow) node
  | _, .command c, h =>
    .bind (.of_eq (c.resolve_untouched h.assigns h.redirections h.untouched _)) (.pure _)
  | flow, .pipe items background, h => by
    refine .bind (Node.fixes_resolveStages fun item hitem => ?_) (.pure _)
    obtain ⟨i, hi⟩ := List.mem_iff_getElem?.1 hitem
    exact h.part hi
  | _, .subshell body redirections, h | _, .background body redirections, h => by
    have huntouched := h.untouched
    rw [Node.positions, List.forall_mem_append] at huntouched
    refine .bind (.inScope (Node.fixes_resolveIn (h.part (i := 0) rfl))) ?_
    exact .bind (.of_eq (Redirection.resolveAll_untouched h.redirections huntouched.2)) (.pure _)
  | _, .redirected body redirections, h | _, .group body redirections, h => by
    have huntouched := h.untouched
    rw [Node.positions, List.forall_mem_append] at huntouched
    refine .bind (Node.fixes_resolveIn (h.part (i := 0) rfl)) ?_
    exact .bind (.of_eq (Redirection.resolveAll_untouched h.redirections huntouched.2)) (.pure _)
  | _, .conjunction left right, h | _, .disjunction left right, h | _, .sequence left right, h
  | _, .whileLoop left right, h =>
    .bind (Node.fixes_resolveIn (h.part (i := 0) rfl))
      (.bind (Node.fixes_resolveIn (h.part (i := 1) rfl)) (.pure _))
  | _, .negation body, h | _, .timed _ body, h =>
    .bind (Node.fixes_resolveIn (h.part (i := 0) rfl)) (.pure _)
  | _, .conditional condition thenBranch elseBranch, h => by
    refine .bind (Node.fixes_resolveIn (h.part (i := 0) rfl)) ?_
    refine .bind (Node.fixes_resolveIn (h.part (i := 1) rfl)) ?_
    refine .bind (Node.fixes_resolve? fun branch hbranch => ?_) (.pure _)
    subst hbranch
    exact h.part (i := 2) rfl
  | _, .caseOf argument arms, h => by
    have huntouched := h.untouched
    rw [Node.positions, List.forall_mem_cons] at huntouched
    refine .bind (.of_eq (Word.resolve_untouched huntouched.1 .noSplit)) ?_
    refine .bind (Arm.fixes_resolveAll huntouched.2 fun body hbody => ?_) (.pure _)
    obtain ⟨i, hi⟩ := List.mem_iff_getElem?.1 hbody
    exact h.part hi
  | _, .arithmetic body, h =>
    .bind (.of_eq (Word.resolveEach_untouched h.untouched)) (.pure _)
  | _, .test t, h => .bind (.of_eq (Test.resolve_untouched h.untouched)) (.pure _)
  | _, .function _ _, h | _, .forLoop _ _ _, h | _, .select _ _ _, h
  | _, .arithmeticFor _ _ _ _, h | _, .coprocess _ _, h => by cases h.binds [] _ rfl

theorem Node.fixes_resolveStages : ∀ {flow : Flow} {nodes : List Node},
    (∀ node ∈ nodes, node.IsLiteral) → Fixes (Node.resolveStages flow nodes) nodes
  | _, [], _ => .pure []
  | _, node :: rest, h => by
    rw [List.forall_mem_cons] at h
    refine .bind (.inScope (Node.fixes_resolveIn h.1)) ?_
    exact .bind (Node.fixes_resolveStages h.2) (.pure _)

theorem Node.fixes_resolve? : ∀ {node : Option Node},
    (∀ n, node = some n → n.IsLiteral) → Fixes (Node.resolve? node) node
  | none, _ => .pure none
  | some _, h => .bind (Node.fixes_resolveIn (h _ rfl)) (.pure _)

theorem Arm.fixes_resolveAll : ∀ {arms : List Arm},
    Word.Untouched (Arm.positions arms) →
    (∀ body ∈ arms.filterMap Arm.body?, body.IsLiteral) → Fixes (Arm.resolveAll arms) arms
  | [], _, _ => .pure []
  | .mk patterns body :: rest, h, hbodies => by
    rw [Arm.positions, Word.untouched_append, Word.untouched_append] at h
    refine .bind (.of_eq (Word.resolveEach_untouched h.1)) ?_
    cases body with
    | none =>
      refine .bind (Node.fixes_resolve? nofun) ?_
      exact .bind (Arm.fixes_resolveAll h.2.2 hbodies) (.pure _)
    | some body =>
      have hparts : (Arm.mk patterns (some body) :: rest).filterMap Arm.body? =
          body :: rest.filterMap Arm.body? := rfl
      rw [hparts, List.forall_mem_cons] at hbodies
      refine .bind (.bind (Node.fixes_resolveIn hbodies.1) (.pure _)) ?_
      exact .bind (Arm.fixes_resolveAll h.2.2 hbodies.2) (.pure _)

end

/-- **A literal tree is left alone.** Where nothing is pending, resolving a tree that has nothing to
expand, assigns and binds nothing and redirects only files and here-documents on fixed descriptors
yields the tree itself, and leaves the session as it was: the variables and the positional
parameters, the saved scopes, what is pending and the file of the journal. -/
theorem resolve_literal {node : Node} {session : Session Builtin} {builtin : Builtin}
    (hliteral : node.IsLiteral) (hsettled : session.Settled builtin) :
    node.resolve.outcome session = (.ok node, session) :=
  Node.fixes_resolveIn hliteral hsettled

/-- A subshell whose output goes to a file, in a pipe, is resolved while variables are set and a
context is open. -/
theorem resolve_literal_of_subshell :
    let echo : Node := .command ⟨none, [], [.ofText "echo".toList, .ofText "a=b".toList], []⟩
    let node : Node :=
      .pipe [.subshell echo [.file .write (.fixed 1) (.ofText "out".toList)], .negation echo] false
    let scope : Scope := { vars := Variables.ofList [("x".toList, { value := "1".toList })] }
    let builtin : Builtin := { scope, saved := [{ positional := ["y".toList] }] }
    let session : Session Builtin :=
      { settings := {}, environment := {}
        host := { hasDirectory := fun _ => true, fileText := fun _ => none }
        live := some (builtin, { path := [] }) }
    node.IsLiteral ∧ session.Settled builtin ∧
      node.resolve.outcome session = (.ok node, session) := by
  intro echo node scope builtin session
  have hsettled : session.Settled builtin := ⟨_, rfl, rfl⟩
  have hparts {P : Node → Prop} (hnode : P node) (hstages : ∀ stage ∈ node.parts, P stage)
      (hecho : P echo) : ∀ path p, node.part? path = some p → P p := by
    refine Node.forall_part? hnode fun stage hstage => Node.forall_part? (hstages stage hstage) ?_
    have hpart : stage.parts = [echo] := by
      rcases List.mem_cons.1 hstage with rfl | hstage
      · rfl
      · rw [List.mem_singleton.1 hstage]
        rfl
    rw [hpart]
    exact List.forall_mem_singleton.2 (Node.forall_part? hecho nofun)
  have hliteral : node.IsLiteral :=
    ⟨rfl, hparts rfl (by decide) rfl, hparts (by decide) (by decide) (by decide), by decide⟩
  exact ⟨hliteral, hsettled, resolve_literal hliteral hsettled⟩

end ShellFold
