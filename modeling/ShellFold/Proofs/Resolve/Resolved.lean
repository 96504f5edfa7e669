import ShellFold.Proofs.Resolve.Literal
import ShellFold.Proofs.Session.Trails

/-!
# Resolved trees

The words of a tree that has been resolved are words that the scanner left untouched and literals,
which it leaves untouched, too. So there is nothing left to expand, and to resolve the tree again is
to record its assignments and to run through its contexts once more. An attempt `Settles` when that
succeeds, with the same result, in any session that trails the one it was first made in; the tree is
settled part by part, and resolving is idempotent (`resolve_idempotent`).
-/

set_option autoImplicit false

namespace ShellFold

theorem Word.scan_literal (value : Text) : (literal value).scan = .ok .untouched := by
  rw [scan, rawChars_literal]
  rfl

namespace Session

variable {α β γ : Type} {P : α → Prop} {Q : β → Prop} {R : γ → Prop}

/-! ## Questions -/

/-- Where the attempt succeeds, its result satisfies `P`, and what has trailed the session still
does. -/
def Outruns (P : α → Prop) (x : Attempt (Session Builtin) α) : Prop :=
  ∀ ⦃saved session trailing a after⦄, Trails saved session trailing →
    x.outcome session = (.ok a, after) → P a ∧ Trails saved after trailing

namespace Outruns

variable {x : Attempt (Session Builtin) α} {f : α → Attempt (Session Builtin) β}

theorem pure {a : α} (h : P a) : Outruns P (Pure.pure a) := by
  rintro _ _ _ _ _ htrails ⟨⟩
  exact ⟨h, htrails⟩

theorem throw (e : Failure) : Outruns P (MonadExcept.throw e) := by
  rintro _ _ _ _ _ - ⟨⟩

theorem ofExcept {result : Except Failure α} (h : ∀ a, result = .ok a → P a) :
    Outruns P (Attempt.ofExcept result) := by
  cases result with
  | ok a => exact pure (h a rfl)
  | error e => exact throw e

theorem bind (hx : Outruns P x) (hf : ∀ a, P a → Outruns Q (f a)) : Outruns Q (x >>= f) := by
  intro _ _ _ _ _ htrails h
  obtain ⟨a, _, hxs, hfs⟩ := Attempt.outcome_bind_eq_ok.1 h
  obtain ⟨hP, hmid⟩ := hx htrails hxs
  exact hf a hP hmid hfs

theorem expand (w : Word) (mode : Mode) : Outruns (fun _ => True) (Session.expand w mode) :=
  fun _ _ _ _ _ htrails h => ⟨trivial, htrails.expand_eq_ok h⟩

end Outruns

/-! ## Making an attempt again -/

/-- Where the attempt succeeds, its result satisfies `P`, and what is made of the result in a
session that trails yields the result again and keeps trailing. -/
def Settles (again : α → Attempt (Session (Recording Builtin)) α) (P : α → Prop)
    (x : Attempt (Session Builtin) α) : Prop :=
  ∀ ⦃saved session trailing a after⦄, Trails saved session trailing →
    x.outcome session = (.ok a, after) →
    P a ∧ ∃ last, (again a).outcome trailing = (.ok a, last) ∧ Trails saved after last

namespace Settles

variable {x : Attempt (Session Builtin) α} {y : Attempt (Session Builtin) β}
  {again : α → Attempt (Session (Recording Builtin)) α}
  {again' : β → Attempt (Session (Recording Builtin)) β}
  {whole : γ → Attempt (Session (Recording Builtin)) γ}

theorem of_outruns (h : Outruns P x) (hagain : ∀ a, P a → again a = Pure.pure a) :
    Settles again P x := by
  intro _ _ trailing a _ htrails hx
  obtain ⟨hP, hafter⟩ := h htrails hx
  refine ⟨hP, trailing, ?_, hafter⟩
  rw [hagain a hP]
  rfl

theorem pure {a : α} (h : P a) (hagain : again a = Pure.pure a) :
    Settles again P (Pure.pure a) := by
  rintro _ _ trailing _ _ htrails ⟨⟩
  exact ⟨h, trailing, by rw [hagain]; rfl, htrails⟩

theorem throw (e : Failure) : Settles again P (MonadExcept.throw e) := by
  rintro _ _ _ _ _ - ⟨⟩

/-- A result is made of one part, and so it is again. -/
theorem map {mk : α → γ} (hx : Settles again P x)
    (hwhole : ∀ a, whole (mk a) = again a >>= fun a => Pure.pure (mk a))
    (hmk : ∀ a, P a → R (mk a)) : Settles whole R (x >>= fun a => Pure.pure (mk a)) := by
  intro _ _ _ _ _ htrails h
  obtain ⟨a, _, hxs, h⟩ := Attempt.outcome_bind_eq_ok.1 h
  cases h
  obtain ⟨hP, last, hlast, hafter⟩ := hx htrails hxs
  refine ⟨hmk a hP, last, ?_, hafter⟩
  rw [hwhole, Attempt.outcome_bind_ok hlast]
  rfl

/-- A result is made of two parts, and so it is again. -/
theorem map₂ {mk : α → β → γ} (hx : Settles again P x) (hy : Settles again' Q y)
    (hwhole : ∀ a b, whole (mk a b) =
      again a >>= fun a => again' b >>= fun b => Pure.pure (mk a b))
    (hmk : ∀ a b, P a → Q b → R (mk a b)) :
    Settles whole R (x >>= fun a => y >>= fun b => Pure.pure (mk a b)) := by
  intro _ _ _ _ _ htrails h
  obtain ⟨a, _, hxs, h⟩ := Attempt.outcome_bind_eq_ok.1 h
  obtain ⟨b, _, hys, h⟩ := Attempt.outcome_bind_eq_ok.1 h
  cases h
  obtain ⟨hP, mid, hmid, htrails⟩ := hx htrails hxs
  obtain ⟨hQ, last, hlast, hafter⟩ := hy htrails hys
  refine ⟨hmk a b hP hQ, last, ?_, hafter⟩
  rw [hwhole, Attempt.outcome_bind_ok hmid, Attempt.outcome_bind_ok hlast]
  rfl

/-- A result is made of three parts, and so it is again. -/
theorem map₃ {δ : Type} {S : δ → Prop} {z : Attempt (Session Builtin) γ} {mk : α → β → γ → δ}
    {again'' : γ → Attempt (Session (Recording Builtin)) γ}
    {whole : δ → Attempt (Session (Recording Builtin)) δ}
    (hx : Settles again P x) (hy : Settles again' Q y) (hz : Settles again'' R z)
    (hwhole : ∀ a b c, whole (mk a b c) =
      again a >>= fun a => again' b >>= fun b => again'' c >>= fun c => Pure.pure (mk a b c))
    (hmk : ∀ a b c, P a → Q b → R c → S (mk a b c)) :
    Settles whole S
      (x >>= fun a => y >>= fun b => z >>= fun c => Pure.pure (mk a b c)) := by
  intro _ _ _ _ _ htrails h
  obtain ⟨a, _, hxs, h⟩ := Attempt.outcome_bind_eq_ok.1 h
  obtain ⟨b, _, hys, h⟩ := Attempt.outcome_bind_eq_ok.1 h
  obtain ⟨c, _, hzs, h⟩ := Attempt.outcome_bind_eq_ok.1 h
  cases h
  obtain ⟨hP, first, hfirst, htrails⟩ := hx htrails hxs
  obtain ⟨hQ, second, hsecond, htrails⟩ := hy htrails hys
  obtain ⟨hR, last, hlast, hafter⟩ := hz htrails hzs
  refine ⟨hmk a b c hP hQ hR, last, ?_, hafter⟩
  rw [hwhole, Attempt.outcome_bind_ok hfirst, Attempt.outcome_bind_ok hsecond,
    Attempt.outcome_bind_ok hlast]
  rfl

/-- An attempt that settles does so in a context of its own. -/
theorem inScope (hx : Settles again P x) :
    Settles (fun a => Session.inScope (again a)) P (Session.inScope x) := by
  intro _ _ _ a _ htrails h
  obtain ⟨_, _, henter, hbody, hleave⟩ := inScope_eq_ok h
  obtain ⟨scope, entered, hentered, htrails⟩ := htrails.enterScope_eq_ok henter
  obtain ⟨hP, last, hlast, htrails⟩ := hx htrails hbody
  obtain ⟨left, hleft, hafter⟩ := htrails.leaveScope_eq_ok hleave
  exact ⟨hP, left, inScope_ok hentered hlast hleft, hafter⟩

end Settles

end Session

open Session (Outruns Settles)

/-! ## Words, redirections and conditional expressions -/

namespace Word

theorem outruns_resolveText (w : Word) (mode : Mode) :
    Outruns (fun _ => True) (w.resolveText mode) :=
  .bind (.expand w mode) fun _ _ => .ofExcept fun _ _ => trivial

/-- A word that is resolved has nothing left to expand. -/
theorem outruns_resolve (mode : Mode) (w : Word) :
    Outruns (fun w => w.scan = .ok .untouched) (w.resolve mode) := by
  refine .bind (.ofExcept fun _ h => h) fun verdict (hscan : w.scan = .ok verdict) => ?_
  cases verdict with
  | untouched => exact .pure hscan
  | expand => exact .bind (w.outruns_resolveText mode) fun value _ => .pure (scan_literal value)

theorem outruns_resolveEach (mode : Mode) (ws : List Word) :
    Outruns (fun ws => Untouched (ws.map fun w => (w, mode))) (resolveEach mode ws) := by
  induction ws with
  | nil => exact .pure untouched_nil
  | cons w ws ih =>
    refine .bind (w.outruns_resolve mode) fun w hw => .bind ih fun ws hws => .pure ?_
    exact untouched_cons.2 ⟨hw, hws⟩

/-- Words that are resolved stay as they are. -/
theorem settles_resolve (mode : Mode) (w : Word) :
    Settles (Word.resolve mode) (fun w => w.scan = .ok .untouched) (w.resolve mode) :=
  .of_outruns (w.outruns_resolve mode) fun _ h => resolve_untouched h mode

theorem settles_resolveEach (mode : Mode) (ws : List Word) :
    Settles (resolveEach mode) (fun ws => Untouched (ws.map fun w => (w, mode)))
      (resolveEach mode ws) :=
  .of_outruns (outruns_resolveEach mode ws) fun _ => resolveEach_untouched

theorem outruns_resolveArgument (w : Word) :
    Outruns (fun ws => Untouched (ws.map fun w => (w, .split))) w.resolveArgument := by
  refine .bind (.ofExcept fun _ h => h) fun verdict (hscan : w.scan = .ok verdict) => ?_
  cases verdict with
  | untouched => exact .pure (List.forall_mem_singleton.2 hscan)
  | expand =>
    refine .bind (.expand w .split) fun fields _ => .pure fun p hp => ?_
    rw [List.map_map, List.mem_map] at hp
    obtain ⟨value, -, rfl⟩ := hp
    exact scan_literal value

theorem outruns_resolveArguments (ws : List Word) :
    Outruns (fun ws => Untouched (ws.map fun w => (w, .split))) (resolveArguments ws) := by
  induction ws with
  | nil => exact .pure untouched_nil
  | cons w ws ih =>
    refine .bind w.outruns_resolveArgument fun words hwords => .bind ih fun ws hws => .pure ?_
    rw [List.map_append]
    exact Word.untouched_append.2 ⟨hwords, hws⟩

theorem outruns_mapM (operator : Option Word) :
    Outruns (fun operator => Untouched (operator.toList.map fun w => (w, .noSplit)))
      (operator.mapM (Word.resolve .noSplit)) := by
  cases operator with
  | none => exact .pure untouched_nil
  | some w =>
    show Outruns _ (some <$> w.resolve .noSplit)
    rw [← bind_pure_comp]
    exact .bind (w.outruns_resolve .noSplit) fun _ hw => .pure (List.forall_mem_singleton.2 hw)

/-- The word that an assigned value becomes is simply its characters, which are what is assigned. -/
theorem outruns_resolveValue (w : Word) :
    Outruns (fun r => r.1.scan = .ok .untouched ∧ r.1.isPlain .untouched = true ∧
      r.2 = r.1.value) w.resolveValue := by
  refine .bind (.ofExcept fun _ h => h) fun verdict (hscan : w.scan = .ok verdict) => ?_
  split
  · next hplain =>
    obtain rfl : verdict = .untouched := by
      simp only [isPlain, Bool.and_eq_true, decide_eq_true_eq] at hplain
      exact hplain.1
    exact .pure ⟨hscan, hplain, rfl⟩
  · refine .bind (w.outruns_resolveText .noSplit) fun value _ => .pure ⟨scan_literal value, ?_, ?_⟩
    · rw [isPlain, rawChars_literal]
      rfl
    · exact (value_literal value).symm

end Word

namespace Redirection

theorem outruns_resolve (r : Redirection) :
    Outruns (fun r => r.isFixed = true ∧ Word.Untouched r.positions) r.resolve := by
  cases r with
  | file operator descriptor target =>
    cases descriptor with
    | fixed number =>
      refine .bind (target.outruns_resolve .target) fun _ hw => .pure ⟨rfl, ?_⟩
      exact List.forall_mem_singleton.2 hw
    | runtime name => exact .throw _
  | heredoc kind descriptor body =>
    cases descriptor with
    | fixed number =>
      cases kind with
      | expanding =>
        refine .bind (body.outruns_resolve .heredoc) fun _ hw => .pure ⟨rfl, ?_⟩
        exact List.forall_mem_singleton.2 hw
      | literal => exact .pure ⟨rfl, Word.untouched_nil⟩
    | runtime name => exact .throw _
  | duplicate operator descriptor target => cases descriptor <;> exact .throw _
  | close descriptor => cases descriptor <;> exact .throw _

theorem outruns_resolveAll (rs : List Redirection) :
    Outruns (fun rs => (∀ r ∈ rs, r.isFixed = true) ∧ Word.Untouched (rs.flatMap positions))
      (resolveAll rs) := by
  induction rs with
  | nil => exact .pure ⟨fun _ h => absurd h List.not_mem_nil, Word.untouched_nil⟩
  | cons r rs ih =>
    refine .bind r.outruns_resolve fun r hr => .bind ih fun rs hrs => .pure ⟨?_, ?_⟩
    · exact List.forall_mem_cons.2 ⟨hr.1, hrs.1⟩
    · rw [List.flatMap_cons]
      exact Word.untouched_append.2 ⟨hr.2, hrs.2⟩

/-- Redirections that are resolved stay as they are. -/
theorem settles_resolveAll (rs : List Redirection) :
    Settles Redirection.resolveAll
      (fun rs => (∀ r ∈ rs, r.isFixed = true) ∧ Word.Untouched (rs.flatMap positions))
      (resolveAll rs) :=
  .of_outruns (outruns_resolveAll rs) fun _ h => resolveAll_untouched h.1 h.2

end Redirection

mutual

theorem Test.outruns_resolve : ∀ t : Test, Outruns (fun t => Word.Untouched t.positions) t.resolve
  | .mk operator left right invert => by
    rw [Test.resolve]
    refine .bind (Word.outruns_mapM operator) fun _ hoperator => ?_
    refine .bind (Operand.outruns_resolve? left) fun _ hleft => ?_
    refine .bind (Operand.outruns_resolve? right) fun _ hright => .pure ?_
    exact Word.untouched_append.2 ⟨hoperator, Word.untouched_append.2 ⟨hleft, hright⟩⟩

theorem Operand.outruns_resolve? : ∀ o : Option Operand,
    Outruns (fun o => Word.Untouched (Operand.positions? o)) (Operand.resolve? o)
  | none => .pure Word.untouched_nil
  | some (.word w) => .bind (w.outruns_resolve .noSplit) fun _ hw =>
      .pure (List.forall_mem_singleton.2 hw)
  | some (.nested t) => .bind (Test.outruns_resolve t) fun _ ht => .pure ht

end

/-! ## Commands -/

/-- Assignments that are recorded are recorded again, with the same values. -/
theorem Assignment.settles_recordAll (assignments : List Assignment) :
    Settles Assignment.recordAll
      (fun as => as.length = assignments.length ∧
        Word.Untouched (as.map fun a => (a.value, .noSplit))) (recordAll assignments) := by
  induction assignments with
  | nil => exact .pure ⟨rfl, Word.untouched_nil⟩ rfl
  | cons a rest ih =>
    intro _ _ _ _ _ htrails h
    obtain ⟨⟨w, value⟩, _, hvalue, h⟩ := Attempt.outcome_bind_eq_ok.1 h
    obtain ⟨⟨⟩, _, hrecord, h⟩ := Attempt.outcome_bind_eq_ok.1 h
    obtain ⟨rest', _, hrest, h⟩ := Attempt.outcome_bind_eq_ok.1 h
    cases h
    obtain ⟨⟨hscan, hplain, hsame⟩, htrails⟩ := a.value.outruns_resolveValue htrails hvalue
    obtain rfl : value = w.value := hsame
    obtain ⟨mid, hmid, htrails⟩ := htrails.recordAssignment_eq_ok hrecord
    obtain ⟨⟨hlength, huntouched⟩, last, hlast, hafter⟩ := ih htrails hrest
    refine ⟨⟨?_, Word.untouched_cons.2 ⟨hscan, huntouched⟩⟩, last, ?_, hafter⟩
    · rw [List.length_cons, List.length_cons, hlength]
    · rw [recordAll, Word.resolveValue_plain hscan hplain, pure_bind]
      show (Session.recordAssignment a.name w.value >>= fun _ => recordAll rest' >>= fun rest =>
        pure ({ a with value := w } :: rest)).outcome _ = _
      rw [Attempt.outcome_bind_ok hmid, Attempt.outcome_bind_ok hlast]
      rfl

/-- Assignments that a command has recorded are recorded again by one that has them and, if there
are any, no arguments. -/
theorem Command.recordAssignments_again {flow : Flow} {c : Command} {saved : List Scope}
    {session after : Session Builtin} {trailing : Session (Recording Builtin)}
    {assignments : List Assignment} (htrails : Session.Trails saved session trailing)
    (h : (c.recordAssignments flow).outcome session = (.ok assignments, after)) :
    Word.Untouched (assignments.map fun a => (a.value, .noSplit)) ∧
      (assignments ≠ [] → c.arguments = []) ∧
      ∃ last, Session.Trails saved after last ∧ ∀ c' : Command, c'.assignments = assignments →
        (assignments ≠ [] → c'.arguments = []) →
        (c'.recordAssignments flow).outcome trailing = (.ok assignments, last) := by
  by_cases hassigns : c.assignments = []
  · rw [recordAssignments, if_pos hassigns] at h
    cases h
    refine ⟨Word.untouched_nil, (absurd rfl ·), trailing, htrails, fun c' hsame _ => ?_⟩
    rw [recordAssignments, if_pos hsame]
    rfl
  · obtain ⟨-, harguments, rfl, hall⟩ := recordAssignments_eq_ok hassigns h
    obtain ⟨⟨hlength, huntouched⟩, last, hlast, hafter⟩ :=
      Assignment.settles_recordAll c.assignments htrails hall
    have hne : assignments ≠ [] := by
      rintro rfl
      exact hassigns (List.length_eq_zero_iff.1 hlength.symm)
    refine ⟨huntouched, fun _ => harguments, last, hafter, fun c' hsame hnone => ?_⟩
    rw [outcome_recordAssignments htrails.acceptsAssignments (hnone hne), hsame, hlast]

theorem Command.settles_resolve (flow : Flow) (c : Command) :
    Settles (Command.resolve flow)
      (fun c => (∀ r ∈ c.redirections, r.isFixed = true) ∧ Word.Untouched c.positions)
      (c.resolve flow) := by
  intro _ _ _ _ _ htrails h
  obtain ⟨assignments, _, hrecord, h⟩ := Attempt.outcome_bind_eq_ok.1 h
  obtain ⟨arguments, _, hresolve, h⟩ := Attempt.outcome_bind_eq_ok.1 h
  obtain ⟨redirections, _, hredirect, h⟩ := Attempt.outcome_bind_eq_ok.1 h
  cases h
  obtain ⟨hvalues, hnone, last, htrails, hagain⟩ := recordAssignments_again htrails hrecord
  obtain ⟨hwords, htrails⟩ := Word.outruns_resolveArguments c.arguments htrails hresolve
  obtain ⟨⟨hfixed, htargets⟩, htrails⟩ :=
    Redirection.outruns_resolveAll c.redirections htrails hredirect
  refine ⟨⟨hfixed, ?_⟩, last, ?_, htrails⟩
  · exact Word.untouched_append.2 ⟨hvalues, Word.untouched_append.2 ⟨hwords, htargets⟩⟩
  · have harguments : assignments ≠ [] → arguments = [] := by
      intro hne
      rw [hnone hne] at hresolve
      cases hresolve
      rfl
    rw [resolve, Attempt.outcome_bind_ok (hagain { c with assignments, arguments, redirections }
      rfl harguments), Word.resolveArguments_untouched hwords, pure_bind,
      Redirection.resolveAll_untouched hfixed htargets]
    rfl

/-! ## Trees -/

mutual

theorem Node.settles_resolveIn : ∀ (flow : Flow) (node : Node),
    Settles (Node.resolveIn flow) (fun node => Word.Untouched node.positions) (node.resolveIn flow)
  | flow, .command c => .map (c.settles_resolve flow) (fun _ => rfl) fun _ h => h.2
  | flow, .pipe items _ =>
    .map (Node.settles_resolveStages flow items) (fun _ => rfl) fun _ h => h
  | flow, .subshell body redirections | flow, .background body redirections =>
    .map₂ (.inScope (Node.settles_resolveIn flow body))
      (Redirection.settles_resolveAll redirections) (fun _ _ => rfl) fun _ _ hbody hredirect =>
        Word.untouched_append.2 ⟨hbody, hredirect.2⟩
  | flow, .redirected body redirections | flow, .group body redirections =>
    .map₂ (Node.settles_resolveIn flow body)
      (Redirection.settles_resolveAll redirections) (fun _ _ => rfl) fun _ _ hbody hredirect =>
        Word.untouched_append.2 ⟨hbody, hredirect.2⟩
  | flow, .conjunction left right | flow, .disjunction left right =>
    .map₂ (Node.settles_resolveIn flow left) (Node.settles_resolveIn .perhaps right)
      (fun _ _ => rfl) fun _ _ hleft hright => Word.untouched_append.2 ⟨hleft, hright⟩
  | flow, .sequence left right =>
    .map₂ (Node.settles_resolveIn flow left) (Node.settles_resolveIn flow right)
      (fun _ _ => rfl) fun _ _ hleft hright => Word.untouched_append.2 ⟨hleft, hright⟩
  | _, .whileLoop test body =>
    .map₂ (Node.settles_resolveIn .perhaps test) (Node.settles_resolveIn .perhaps body)
      (fun _ _ => rfl) fun _ _ htest hbody => Word.untouched_append.2 ⟨htest, hbody⟩
  | _, .negation body =>
    .map (Node.settles_resolveIn .perhaps body) (fun _ => rfl) fun _ h => h
  | flow, .timed _ body =>
    .map (Node.settles_resolveIn flow body) (fun _ => rfl) fun _ h => h
  | flow, .conditional condition thenBranch elseBranch =>
    .map₃ (Node.settles_resolveIn flow condition) (Node.settles_resolveIn .perhaps thenBranch)
      (Node.settles_resolve? elseBranch) (fun _ _ _ => rfl) fun _ _ _ hcondition hthen helse =>
        Word.untouched_append.2 ⟨hcondition, Word.untouched_append.2 ⟨hthen, helse⟩⟩
  | _, .caseOf argument arms =>
    .map₂ (argument.settles_resolve .noSplit) (Arm.settles_resolveAll arms) (fun _ _ => rfl)
      fun _ _ hargument harms => Word.untouched_cons.2 ⟨hargument, harms⟩
  | _, .arithmetic body =>
    .map (Word.settles_resolveEach .noSplit body) (fun _ => rfl) fun _ h => h
  | _, .test t =>
    .map (.of_outruns (Test.outruns_resolve t) fun _ => Test.resolve_untouched) (fun _ => rfl)
      fun _ h => h
  | _, .function _ _ | _, .forLoop _ _ _ | _, .select _ _ _ | _, .arithmeticFor _ _ _ _
  | _, .coprocess _ _ => .throw _

theorem Node.settles_resolveStages : ∀ (flow : Flow) (nodes : List Node),
    Settles (Node.resolveStages flow) (fun nodes => Word.Untouched (Node.positionsOf nodes))
      (Node.resolveStages flow nodes)
  | _, [] => .pure Word.untouched_nil rfl
  | flow, node :: rest =>
    .map₂ (.inScope (Node.settles_resolveIn flow node)) (Node.settles_resolveStages flow rest)
      (fun _ _ => rfl) fun _ _ hnode hrest => Word.untouched_append.2 ⟨hnode, hrest⟩

theorem Node.settles_resolve? : ∀ node : Option Node,
    Settles Node.resolve? (fun node => Word.Untouched (Node.positions? node)) (Node.resolve? node)
  | none => .pure Word.untouched_nil rfl
  | some node => .map (Node.settles_resolveIn .perhaps node) (fun _ => rfl) fun _ h => h

theorem Arm.settles_resolveAll : ∀ arms : List Arm,
    Settles Arm.resolveAll (fun arms => Word.Untouched (Arm.positions arms)) (Arm.resolveAll arms)
  | [] => .pure Word.untouched_nil rfl
  | .mk patterns body :: rest =>
    .map₃ (Word.settles_resolveEach .noSplit patterns) (Node.settles_resolve? body)
      (Arm.settles_resolveAll rest) (fun _ _ _ => rfl) fun _ _ _ hpatterns hbody hrest =>
        Word.untouched_append.2 ⟨hpatterns, Word.untouched_append.2 ⟨hbody, hrest⟩⟩

end

/-- **Resolving is idempotent.** A tree that comes of resolving in a session that has just been
opened has nothing left to expand. In any session that has just been opened with the same
environment, and the same file of definitions if it has one, resolving it yields it again, and no
text is given to the oracle to expand. -/
theorem resolve_idempotent {settings settings' : OracleSettings} {environment : Environment}
    {host host' : Host} {session session' after : Session Builtin} {node resolved : Node}
    (hstart : Session.start? settings environment host = (.ok (), session))
    (hstart' : Session.start? settings' environment host' = (.ok (), session'))
    (hdump : ∀ path, environment.dumpFile = some path →
      host'.fileText path = host.fileText path)
    (hresolve : node.resolve.outcome session = (.ok resolved, after)) :
    (∀ p ∈ resolved.positions, p.1.scan = .ok .untouched) ∧
      ∃ again : Session (Recording Builtin),
        resolved.resolve.outcome session'.recording = (.ok resolved, again) ∧ again.probes = [] ∧
          resolved.resolve.outcome session' = (.ok resolved, again.unrecorded) := by
  obtain ⟨-, last, hinstall, hsettled⟩ := Session.start?_settled hstart
  obtain ⟨-, last', hinstall', hsettled'⟩ := Session.start?_settled hstart'
  -- both oracles have been told the same
  rw [Environment.install_congr hdump, hinstall, Prod.mk.injEq] at hinstall'
  obtain ⟨-, rfl⟩ := hinstall'
  obtain ⟨huntouched, again, hagain, htrails⟩ :=
    node.settles_resolveIn .always (hsettled.trails hsettled') hresolve
  refine ⟨huntouched, again, hagain, htrails.probes, ?_⟩
  have hsame := (resolved.program_resolve.follows session'.recording).1
  have hagain : resolved.resolve.outcome session'.recording = (.ok resolved, again) := hagain
  rw [hagain, Session.unrecorded_recording] at hsame
  exact hsame.symm

/-- What is assigned in a subshell refers to an assignment before it, and ends with the subshell. -/
theorem resolve_idempotent_of_subshell :
    let environment : Environment :=
      { vars := .ofList [("y".toList, { value := "it's\n".toList, exported := true })] }
    let host : Host := { hasDirectory := fun _ => true, fileText := fun _ => none }
    let tree (first second third : Word) : Node :=
      .sequence (.command ⟨none, [⟨"x".toList, first⟩], [], []⟩)
        (.sequence (.subshell (.command ⟨none, [⟨"y".toList, second⟩], [], []⟩) [])
          (.command ⟨none, [], [.ofText "echo".toList, third], []⟩))
    let node := tree (.ofText "\"$y\"".toList) (.ofText "$x$x".toList) (.ofText "\"$y\"".toList)
    let resolved := tree (.literal "it's\n".toList) (.literal "it's\nit's\n".toList)
      (.literal "it's\n".toList)
    ∃ session after : Session Builtin, Session.start? {} environment host = (.ok (), session) ∧
      node.resolve.outcome session = (.ok resolved, after) ∧
      (∀ p ∈ resolved.positions, p.1.scan = .ok .untouched) ∧
      ∃ again : Session (Recording Builtin),
        resolved.resolve.outcome session.recording = (.ok resolved, again) ∧ again.probes = [] ∧
          resolved.resolve.outcome session = (.ok resolved, again.unrecorded) := by
  intro environment host tree node resolved
  have hplain : environment.IsPlain := ⟨by decide, by decide, by decide, by decide, by decide, rfl⟩
  have hdirectory : host.hasDirectory
      ((({} : OracleSettings).directory? host.home).getD host.temporaryDirectory) = true := rfl
  obtain ⟨session, hstart, hmirrors⟩ := Session.start?_mirrors {} hplain hdirectory
  have hdirect : node.direct environment.scope = .ok resolved := by
    subst node resolved tree environment
    cbv
  have hresolve : node.resolve.outcome session = (.ok resolved, (node.resolve.outcome session).2) :=
    Prod.ext ((hmirrors.resolve node).trans hdirect) rfl
  exact ⟨session, _, hstart, hresolve, resolve_idempotent hstart hstart (fun _ _ => rfl) hresolve⟩

end ShellFold
