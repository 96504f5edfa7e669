import ShellFold.Proofs.Script
import ShellFold.Proofs.Session.Settled

/-!
# Statements that a session holds

A session `Holds` the statements that are pending in it. A flush carries them out on the table of
the oracle, up to the first that fails, and whether or not one does none of them is pending
afterwards (`Holds.flush`). Statements are put into the journal one by one, up to the first that
cannot be written (`Holds.forM_define`).
-/

set_option autoImplicit false

namespace ShellFold

namespace Session

/-- Puts a statement into the journal. -/
def define (statement : Statement) : Attempt (Session Builtin) Unit :=
  onLive (Attempt.onSecond (Journal.push statement))

theorem acceptsAssignments_of_live {session : Session Builtin} {live : Builtin × Journal}
    (h : session.live = some live) : session.acceptsAssignments = true := by
  simp only [acceptsAssignments, h]
  rfl

/-- Recording an assignment is putting its statement into the journal of an open session. -/
theorem outcome_recordAssignment {session : Session Builtin} {live : Builtin × Journal}
    (h : session.live = some live) (name value : Text) :
    (recordAssignment name value).outcome session =
      (define (.assign name value)).outcome session := by
  rw [recordAssignment, Attempt.outcome_bind_ok Attempt.outcome_get,
    if_neg (by simp [acceptsAssignments_of_live h])]
  rfl

/-- The session is open on the oracle, and the statements are pending. -/
def Holds (session : Session Builtin) (statements : List Statement) (builtin : Builtin) : Prop :=
  ∃ journal, session.live = some (builtin, journal) ∧ Statement.WrittenAs statements journal.pending

variable {session after : Session Builtin} {builtin : Builtin} {statements : List Statement}

theorem Settled.holds (h : session.Settled builtin) : session.Holds [] builtin := by
  obtain ⟨journal, hlive, hpending⟩ := h
  exact ⟨journal, hlive, hpending ▸ .nil⟩

/-- What a settled session asks for happens to its oracle. -/
theorem Settled.ask {α : Type} (h : session.Settled builtin) (x : Attempt Builtin α) :
    ∃ after, (Session.ask x).outcome session = ((x.outcome builtin).1, after) ∧
      after.Settled (x.outcome builtin).2 := by
  obtain ⟨journal, hlive, hpending⟩ := h
  exact ⟨_, outcome_onLive_some hlive _, journal, rfl, hpending⟩

theorem Settled.ask_eq_ok {α : Type} {x : Attempt Builtin α} {a : α} (h : session.Settled builtin)
    (hask : (Session.ask x).outcome session = (.ok a, after)) :
    ∃ last, x.outcome builtin = (.ok a, last) ∧ after.Settled last := by
  obtain ⟨_, hout, hsettled⟩ := h.ask x
  rw [hask, Prod.mk.injEq] at hout
  obtain ⟨hresult, rfl⟩ := hout
  exact ⟨_, Prod.ext hresult.symm rfl, hsettled⟩

namespace Holds

theorem isOk_render (h : session.Holds statements builtin) :
    ∀ statement ∈ statements, statement.render.isOk = true :=
  h.choose_spec.2.isOk_render

/-- A flush carries out what is pending, and leaves nothing pending. -/
theorem flush (h : session.Holds statements builtin) :
    ∃ after, Session.flush.outcome session =
        (((forM statements Statement.apply).outcome builtin.scope.vars).1, after) ∧
      after.Settled { builtin with scope := { builtin.scope with
        vars := ((forM statements Statement.apply).outcome builtin.scope.vars).2 } } := by
  obtain ⟨journal, hlive, hwritten⟩ := h
  rw [Session.flush, outcome_onLive_some hlive, Journal.flush]
  simp only [Attempt.outcome_ofOutcome]
  split
  · next hpending =>
    rw [hpending] at hwritten
    cases hwritten
    exact ⟨_, rfl, journal, rfl, hpending⟩
  · have hscript : Variables.applyScript (Journal.fileOf journal.pending) =
        forM statements Statement.apply := by
      rw [Variables.applyScript_fileOf hwritten.renders, hwritten.forM_applyLine]
    have hsource : (Oracle.source ⟨journal.path, some (Journal.fileOf journal.pending)⟩).outcome
        builtin = ((((forM statements Statement.apply).outcome builtin.scope.vars).1,
          { builtin with scope := { builtin.scope with
              vars := ((forM statements Statement.apply).outcome builtin.scope.vars).2 } }) :
          Except Failure Unit × Builtin) := by
      show (Builtin.onVariables (Variables.applyScript _)).outcome builtin = _
      rw [hscript]
      rfl
    rw [hsource]
    exact ⟨_, rfl, _, rfl, rfl⟩

/-- A flush that succeeds has carried out what was pending. -/
theorem flush_eq_ok (h : session.Holds statements builtin)
    (hflush : Session.flush.outcome session = (.ok (), after)) :
    ∃ vars, (forM statements Statement.apply).outcome builtin.scope.vars = (.ok (), vars) ∧
      after.Settled { builtin with scope := { builtin.scope with vars } } := by
  obtain ⟨_, hout, hsettled⟩ := h.flush
  rw [hflush, Prod.mk.injEq] at hout
  obtain ⟨hresult, rfl⟩ := hout
  exact ⟨_, Prod.ext hresult.symm rfl, hsettled⟩

/-- A flush succeeds if what is pending can be carried out. -/
theorem flush_of_apply {vars : Variables} (h : session.Holds statements builtin)
    (happly : (forM statements Statement.apply).outcome builtin.scope.vars = (.ok (), vars)) :
    ∃ after, Session.flush.outcome session = (.ok (), after) ∧
      after.Settled { builtin with scope := { builtin.scope with vars } } := by
  have hflush := h.flush
  rw [happly] at hflush
  exact hflush

/-- A statement that is put into the journal is pending, if it can be written. -/
theorem define (h : session.Holds statements builtin) (statement : Statement) :
    (∃ after, (Session.define statement).outcome session = (.ok (), after) ∧
        after.Holds (statements ++ [statement]) builtin) ∨
      ∃ e, statement.render = .error e ∧
        (Session.define statement).outcome session = (.error e, session) := by
  obtain ⟨journal, hlive, hwritten⟩ := h
  rw [Session.define, outcome_onLive_some hlive, Journal.push]
  cases hrender : statement.render with
  | ok line => exact .inl ⟨_, rfl, _, rfl, hwritten.concat hrender⟩
  | error e => exact .inr ⟨e, rfl, congrArg (Except.error e, ·) (by
      show { session with live := some (builtin, journal) } = session
      rw [← hlive])⟩

theorem define_eq_ok {statement : Statement} (h : session.Holds statements builtin)
    (hdefine : (Session.define statement).outcome session = (.ok (), after)) :
    after.Holds (statements ++ [statement]) builtin := by
  rcases h.define statement with ⟨_, hout, hholds⟩ | ⟨e, -, hout⟩
  · rw [hdefine, Prod.mk.injEq] at hout
    rw [hout.2]
    exact hholds
  · rw [hdefine] at hout
    cases hout

/-- Statements that are put into the journal are pending if all of them can be written. -/
theorem forM_define (more : List Statement) : ∀ {session : Session Builtin}
    {statements : List Statement}, session.Holds statements builtin →
    (∃ after, (forM more Session.define).outcome session = (.ok (), after) ∧
        after.Holds (statements ++ more) builtin) ∨
      ∃ statement ∈ more, ∃ e after, statement.render = .error e ∧
        (forM more Session.define).outcome session = (.error e, after) := by
  induction more with
  | nil =>
    intro session statements h
    exact .inl ⟨session, rfl, by rwa [List.append_nil]⟩
  | cons statement more ih =>
    intro session statements h
    rcases h.define statement with ⟨mid, hmid, hholds⟩ | ⟨e, hrender, hout⟩
    · rw [List.forM_cons, Attempt.outcome_bind_ok hmid]
      rcases ih hholds with ⟨after, hafter, hlast⟩ | ⟨later, hmem, e, after, hrender, hafter⟩
      · rw [List.append_assoc] at hlast
        exact .inl ⟨after, hafter, hlast⟩
      · exact .inr ⟨later, .tail _ hmem, e, after, hrender, hafter⟩
    · rw [List.forM_cons, Attempt.outcome_bind_error hout]
      exact .inr ⟨statement, .head _, e, session, hrender, rfl⟩

theorem forM_define_eq_ok {more : List Statement} (h : session.Holds statements builtin)
    (hdefine : (forM more Session.define).outcome session = (.ok (), after)) :
    after.Holds (statements ++ more) builtin := by
  rcases h.forM_define more with ⟨_, hout, hholds⟩ | ⟨_, -, e, _, -, hout⟩
  · rw [hdefine, Prod.mk.injEq] at hout
    rw [hout.2]
    exact hholds
  · rw [hdefine] at hout
    cases hout

/-- A word that could be expanded was so after what was pending had been carried out. -/
theorem expand_eq_ok {w : Word} {mode : Mode} {fields : List Text}
    (h : session.Holds statements builtin)
    (hexpand : (Session.expand w mode).outcome session = (.ok fields, after)) :
    ∃ vars, (forM statements Statement.apply).outcome builtin.scope.vars = (.ok (), vars) ∧
      after.Settled { builtin with scope := { builtin.scope with vars } } := by
  obtain ⟨source, _, hsource, hexpand⟩ := Attempt.outcome_bind_eq_ok.1 hexpand
  obtain rfl : session = _ := congrArg Prod.snd hsource
  exact h.flush_eq_ok (outcome_expandText_eq_ok.1 hexpand).1

theorem recordAssignment_eq_ok {name value : Text} (h : session.Holds statements builtin)
    (hrecord : (Session.recordAssignment name value).outcome session = (.ok (), after)) :
    after.Holds (statements ++ [.assign name value]) builtin := by
  obtain ⟨journal, hlive, -⟩ := id h
  rw [outcome_recordAssignment hlive] at hrecord
  exact h.define_eq_ok hrecord

/-- A context begins once what was pending has been carried out, and will take that scope back. -/
theorem enterScope_of_apply {vars : Variables} (h : session.Holds statements builtin)
    (happly : (forM statements Statement.apply).outcome builtin.scope.vars = (.ok (), vars)) :
    ∃ after, Session.enterScope.outcome session = (.ok (), after) ∧
      after.Settled ⟨{ builtin.scope with vars },
        { builtin.scope with vars } :: builtin.saved⟩ := by
  obtain ⟨flushed, hflush, hflushed⟩ := h.flush_of_apply happly
  obtain ⟨after, hask, hafter⟩ := hflushed.ask Oracle.enterScope
  exact ⟨after, (Attempt.outcome_bind_ok hflush).trans hask, hafter⟩

theorem enterScope_eq_ok (h : session.Holds statements builtin)
    (henter : Session.enterScope.outcome session = (.ok (), after)) :
    ∃ vars, (forM statements Statement.apply).outcome builtin.scope.vars = (.ok (), vars) ∧
      after.Settled ⟨{ builtin.scope with vars },
        { builtin.scope with vars } :: builtin.saved⟩ := by
  obtain ⟨⟨⟩, _, hflush, -⟩ := Attempt.outcome_bind_eq_ok.1 henter
  obtain ⟨vars, happly, -⟩ := h.flush_eq_ok hflush
  obtain ⟨_, hagain, hsettled⟩ := h.enterScope_of_apply happly
  rw [henter, Prod.mk.injEq] at hagain
  exact ⟨vars, happly, hagain.2 ▸ hsettled⟩

/-- A context ends with the scope that was saved, and what is pending is dropped. -/
theorem leaveScope {scope last : Scope} {saved : List Scope}
    (h : session.Holds statements ⟨last, scope :: saved⟩) :
    ∃ after, Session.leaveScope.outcome session = (.ok (), after) ∧
      after.Settled ⟨scope, saved⟩ := by
  obtain ⟨journal, hlive, -⟩ := h
  exact ⟨_, outcome_leaveScope hlive, _, rfl, rfl⟩

theorem leaveScope_eq_ok {scope last : Scope} {saved : List Scope}
    (h : session.Holds statements ⟨last, scope :: saved⟩)
    (hleave : Session.leaveScope.outcome session = (.ok (), after)) :
    after.Settled ⟨scope, saved⟩ := by
  obtain ⟨_, hagain, hsettled⟩ := h.leaveScope
  rw [hleave, Prod.mk.injEq] at hagain
  exact hagain.2 ▸ hsettled

end Holds

end Session

end ShellFold
