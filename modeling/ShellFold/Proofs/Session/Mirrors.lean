import ShellFold.Proofs.Session.Held

/-!
# What a session stands for

A session holds its variables in two places, in the table of its oracle and in the statements that
are pending. `Session.Mirrors` says which scope the two stand for together: the one that the oracle
is in after a flush (`Mirrors.flush`). A recorded assignment changes that scope at once
(`Mirrors.recordAssignment`), though it reaches the oracle only later.
-/

set_option autoImplicit false

namespace ShellFold

/-! ## Recorded statements -/

/-- The lines are rendered statements that take one table of variables to the other. -/
def Recorded (lines : List Text) (vars after : Variables) : Prop :=
  Journal.Renders lines ∧ (forM lines Variables.applyLine).outcome vars = (.ok (), after)

/-- Statements that can be carried out are recorded by the lines they are written as. -/
theorem Statement.WrittenAs.recorded {statements : List Statement} {lines : List Text}
    {vars after : Variables} (h : WrittenAs statements lines)
    (happly : (forM statements Statement.apply).outcome vars = (.ok (), after)) :
    Recorded lines vars after :=
  ⟨h.renders, by rw [h.forM_applyLine, happly]⟩

theorem Recorded.exists_writtenAs {lines : List Text} {vars after : Variables}
    (h : Recorded lines vars after) :
    ∃ statements, Statement.WrittenAs statements lines ∧
      (forM statements Statement.apply).outcome vars = (.ok (), after) := by
  obtain ⟨statements, hwritten⟩ := h.1.exists_writtenAs
  exact ⟨statements, hwritten, by rw [← hwritten.forM_applyLine, h.2]⟩

/-! ## Tables without attributes -/

/-- The table with a value given to a variable. -/
def Variables.withValue (vars : Variables) (name value : Text) : Variables :=
  vars.insert name { vars.getOrNew name with value }

/-- No variable is readonly. -/
def Variables.Writable (vars : Variables) : Prop :=
  ∀ name v, vars.get? name = some v → v.readonly = false

/-- An assignment to a variable that is not readonly succeeds. -/
theorem Variables.outcome_assign {vars : Variables} {name : Text} (hname : Text.isName name = true)
    (hreadonly : (vars.getOrNew name).readonly = false) (value : Text) :
    (assign name value).outcome vars = (.ok (), vars.withValue name value) := by
  rw [assign, Attempt.outcome_bind_ok (outcome_checkName hname vars),
    Attempt.outcome_bind_ok Attempt.outcome_get, if_neg (by simp [hreadonly])]
  rfl

namespace Variables.Writable

variable {vars : Variables} (h : vars.Writable)
include h

theorem readonly_getOrNew (name : Text) : (vars.getOrNew name).readonly = false := by
  unfold getOrNew
  cases hget : vars.get? name with
  | none => rfl
  | some v => exact h name v hget

theorem insert {v : Variable} (hv : v.readonly = false) (name : Text) :
    (vars.insert name v).Writable := by
  intro other w hw
  rw [get?_insert] at hw
  split at hw
  · cases hw
    exact hv
  · exact h other w hw

theorem withValue (name value : Text) : (vars.withValue name value).Writable :=
  h.insert (v := { vars.getOrNew name with value }) (h.readonly_getOrNew name) name

/-- Where nothing is readonly an assignment succeeds. -/
theorem outcome_assign {name : Text} (hname : Text.isName name = true) (value : Text) :
    (assign name value).outcome vars = (.ok (), vars.withValue name value) :=
  Variables.outcome_assign hname (h.readonly_getOrNew name) value

end Variables.Writable

/-! ## Sessions -/

namespace Session

/-- The table of the oracle and the pending statements stand for the scope, within contexts that
will take back the saved scopes. -/
structure Mirrors (saved : List Scope) (scope : Scope) (session : Session Builtin) : Prop where
  live : ∃ vars journal, session.live = some ({ scope := { scope with vars }, saved }, journal) ∧
    Recorded journal.pending vars scope.vars
  writable : scope.vars.Writable

variable {session : Session Builtin} {saved : List Scope} {scope : Scope}

/-- What is pending leads from the table of the oracle to the scope. -/
theorem Holds.mirrors {statements : List Statement} {vars : Variables}
    (h : session.Holds statements { scope := { scope with vars }, saved })
    (happly : (forM statements Statement.apply).outcome vars = (.ok (), scope.vars))
    (hwritable : scope.vars.Writable) : session.Mirrors saved scope := by
  obtain ⟨journal, hlive, hwritten⟩ := h
  exact ⟨⟨vars, journal, hlive, hwritten.recorded happly⟩, hwritable⟩

theorem Settled.mirrors (h : session.Settled { scope, saved }) (hwritable : scope.vars.Writable) :
    session.Mirrors saved scope :=
  h.holds.mirrors rfl hwritable

namespace Mirrors

variable (h : session.Mirrors saved scope)
include h

theorem holds : ∃ vars statements,
    session.Holds statements { scope := { scope with vars }, saved } ∧
      (forM statements Statement.apply).outcome vars = (.ok (), scope.vars) := by
  obtain ⟨vars, journal, hlive, hrecorded⟩ := h.live
  obtain ⟨statements, hwritten, happly⟩ := hrecorded.exists_writtenAs
  exact ⟨vars, statements, ⟨journal, hlive, hwritten⟩, happly⟩

/-- A flush takes the oracle to the scope that the session stands for. -/
theorem flush : ∃ after, Session.flush.outcome session = (.ok (), after) ∧
    after.Settled { scope, saved } := by
  obtain ⟨vars, statements, hholds, happly⟩ := h.holds
  exact hholds.flush_of_apply happly

/-- A word is expanded in the scope that the session stands for. -/
theorem expand (w : Word) (mode : Mode) : ∃ after,
    (Session.expand w mode).outcome session = (scope.expandWord mode w, after) ∧
      after.Mirrors saved scope := by
  show ∃ after, (Attempt.ofExcept (w.sourceIn mode) >>=
      fun source => Session.expandText source mode).outcome session =
    (w.sourceIn mode >>= scope.expand mode, after) ∧ _
  rw [Attempt.outcome_bind, Attempt.outcome_ofExcept]
  rcases w.sourceIn mode with e | source
  · exact ⟨session, rfl, h⟩
  · obtain ⟨settled, hflush, hsettled⟩ := h.flush
    exact ⟨settled, hsettled.outcome_expandText_of_flush hflush source mode,
      hsettled.mirrors h.writable⟩

theorem acceptsAssignments : session.acceptsAssignments = true := by
  obtain ⟨vars, journal, hlive, -⟩ := h.live
  exact acceptsAssignments_of_live hlive

/-- A statement that is put into the journal takes effect on the scope at once. -/
theorem push {statement : Statement} {line : Text} {vars : Variables}
    (hrender : statement.render = .ok line)
    (happly : statement.apply.outcome scope.vars = (.ok (), vars)) (hwritable : vars.Writable) :
    ∃ after, (define statement).outcome session = (.ok (), after) ∧
      after.Mirrors saved { scope with vars } := by
  obtain ⟨old, statements, hholds, hpending⟩ := h.holds
  rcases hholds.define statement with ⟨after, hafter, hlast⟩ | ⟨e, hfails, -⟩
  · have hall :
        (forM (statements ++ [statement]) Statement.apply).outcome old = (.ok (), vars) := by
      refine Statement.forM_apply_append hpending ?_
      rw [List.forM_cons, Attempt.outcome_bind_ok happly]
      rfl
    let scope' : Scope := { scope with vars }
    have hlast : after.Holds _ { scope := { scope' with vars := old }, saved } := hlast
    exact ⟨after, hafter, hlast.mirrors hall hwritable⟩
  · rw [hrender] at hfails
    cases hfails

/-- A recorded assignment changes the scope at once, if it has a name and a value that can be
written. -/
theorem recordAssignment {name value : Text} (hname : Text.isName name = true)
    (hvalue : '\x00' ∉ value) :
    ∃ after, (Session.recordAssignment name value).outcome session = (.ok (), after) ∧
      after.Mirrors saved { scope with vars := scope.vars.withValue name value } := by
  obtain ⟨line, hline⟩ := Statement.exists_render_assign hname hvalue
  obtain ⟨vars, journal, hlive, -⟩ := h.live
  rw [outcome_recordAssignment hlive]
  exact h.push hline (h.writable.outcome_assign hname value) (h.writable.withValue name value)

/-- An assignment that cannot be rendered fails when it is recorded. -/
theorem recordAssignment_error {name value : Text} {e : Failure}
    (hrender : (Statement.assign name value).render = .error e) :
    ((Session.recordAssignment name value).outcome session).1 = .error e := by
  obtain ⟨vars, journal, hlive, -⟩ := h.live
  rw [outcome_recordAssignment hlive, define, outcome_onLive_some hlive, Journal.push, hrender]
  rfl

/-- A context begins with the scope that the session stands for, and will take it back. -/
theorem enterScope : ∃ inner : Session Builtin,
    Session.enterScope.outcome session = (.ok (), inner) ∧
      inner.Mirrors (scope :: saved) scope := by
  obtain ⟨vars, statements, hholds, happly⟩ := h.holds
  obtain ⟨inner, henter, hinner⟩ := hholds.enterScope_of_apply happly
  exact ⟨inner, henter, hinner.mirrors h.writable⟩

end Mirrors

end Session

end ShellFold
