import ShellFold.Proofs.Resolve.Parts
import ShellFold.Proofs.Session.Held
import ShellFold.Proofs.Session.Recording

/-!
# Sessions that trail others

When a tree that has been resolved is resolved again, nothing is asked any more, so what was handed
over before a question the first time may still be pending the second time. `Session.Trails` relates
such sessions: in the one that trails, the statements that the other has handed over since are
pending in front of what is pending in both, and they lead to the variables of the other. Each
question lets the session trail further, recorded assignments are pending in both, and the begin of
a context lets it catch up: there the same statements are carried out, so neither session fails
where the other does not.
-/

set_option autoImplicit false

namespace ShellFold

namespace Session

/-- With a record and nothing to expand, an attempt does what it does without. -/
theorem Follows.outcome_eq_ok {σ α : Type} {x : Attempt (Session σ) α}
    {y : Attempt (Session (Recording σ)) α} (h : Follows (fun _ _ => False) x y)
    {session : Session (Recording σ)} (hprobes : session.probes = []) {a : α} {after : Session σ}
    (hx : x.outcome session.unrecorded = (.ok a, after)) :
    ∃ again, y.outcome session = (.ok a, again) ∧ again.unrecorded = after ∧ again.probes = [] := by
  obtain ⟨hsame, hnew⟩ := h session
  rw [hx, Prod.mk.injEq] at hsame
  refine ⟨_, Prod.ext hsame.1 rfl, hsame.2, List.eq_nil_iff_forall_not_mem.2 fun probe hprobe => ?_⟩
  rcases hnew probe hprobe with hbefore | hfalse
  · rw [hprobes] at hbefore
    cases hbefore
  · exact hfalse

/-- Both sessions are within contexts that will take back the saved scopes. What the one has handed
over and the other has pending leads from the variables of the other to those of the one, and what
is pending in the one is so in the other. The oracle of the other has been given nothing to
expand. -/
def Trails (saved : List Scope) (session : Session Builtin)
    (trailing : Session (Recording Builtin)) : Prop :=
  ∃ (scope : Scope) (vars : Variables) (done queue : List Statement),
    session.Holds queue { scope, saved } ∧
      trailing.unrecorded.Holds (done ++ queue) { scope := { scope with vars }, saved } ∧
      (forM done Statement.apply).outcome vars = (.ok (), scope.vars) ∧ trailing.probes = []

variable {saved : List Scope} {session after : Session Builtin}
  {trailing : Session (Recording Builtin)}

/-- Two sessions whose oracles have come to the same. -/
theorem Settled.trails {builtin : Builtin} {other : Session Builtin} (h : session.Settled builtin)
    (h' : other.Settled builtin) : Trails builtin.saved session other.recording := by
  refine ⟨builtin.scope, builtin.scope.vars, [], [], h.holds, ?_, rfl, probes_recording other⟩
  rw [unrecorded_recording]
  exact h'.holds

namespace Trails

variable (h : Trails saved session trailing)
include h

theorem acceptsAssignments : trailing.acceptsAssignments = true := by
  obtain ⟨_, _, _, _, -, ⟨_, hlive, -⟩, -, -⟩ := h
  rw [← Follows.acceptsAssignments]
  exact acceptsAssignments_of_live hlive

theorem probes : trailing.probes = [] := by
  obtain ⟨_, _, _, _, -, -, -, hprobes⟩ := h
  exact hprobes

/-- A session trails further when the other expands a word. -/
theorem expand_eq_ok {w : Word} {mode : Mode} {fields : List Text}
    (hexpand : (Session.expand w mode).outcome session = (.ok fields, after)) :
    Trails saved after trailing := by
  obtain ⟨scope, vars, done, queue, hholds, htrailing, hdone, hprobes⟩ := h
  obtain ⟨last, hqueue, hsettled⟩ := hholds.expand_eq_ok hexpand
  refine ⟨{ scope with vars := last }, vars, done ++ queue, [], hsettled.holds, ?_,
    Statement.forM_apply_append hdone hqueue, hprobes⟩
  rw [List.append_nil]
  exact htrailing

/-- What can be recorded in the one session can be recorded in the other. -/
theorem recordAssignment_eq_ok {name value : Text}
    (hrecord : (Session.recordAssignment name value).outcome session = (.ok (), after)) :
    ∃ again, (Session.recordAssignment name value).outcome trailing = (.ok (), again) ∧
      Trails saved after again := by
  obtain ⟨scope, vars, done, queue, hholds, htrailing, hdone, hprobes⟩ := h
  have hafter := hholds.recordAssignment_eq_ok hrecord
  obtain ⟨journal, hlive, -⟩ := id htrailing
  have hsame := outcome_recordAssignment hlive name value
  rcases htrailing.define (.assign name value) with ⟨last, hlast, hpending⟩ | ⟨e, hrender, -⟩
  · rw [hlast] at hsame
    obtain ⟨again, hagain, rfl, hnone⟩ :=
      (Follows.recordAssignment name value).outcome_eq_ok hprobes hsame
    rw [List.append_assoc] at hpending
    exact ⟨again, hagain, scope, vars, done, _, hafter, hpending, hdone, hnone⟩
  · -- the statement is pending in the one session, so it can be written
    have hwritten := hafter.isOk_render (.assign name value) (by simp)
    rw [hrender] at hwritten
    cases hwritten

/-- The session catches up when a context begins. -/
theorem enterScope_eq_ok (henter : Session.enterScope.outcome session = (.ok (), after)) :
    ∃ scope again, Session.enterScope.outcome trailing = (.ok (), again) ∧
      Trails (scope :: saved) after again := by
  obtain ⟨scope, vars, done, queue, hholds, htrailing, hdone, hprobes⟩ := h
  obtain ⟨last, hqueue, hafter⟩ := hholds.enterScope_eq_ok henter
  obtain ⟨entered, hentered, hsettled⟩ :=
    htrailing.enterScope_of_apply (Statement.forM_apply_append hdone hqueue)
  obtain ⟨again, hagain, rfl, hnone⟩ := Follows.enterScope.outcome_eq_ok hprobes hentered
  refine ⟨{ scope with vars := last }, again, hagain, { scope with vars := last }, last, [], [],
    hafter.holds, hsettled.holds, rfl, hnone⟩

end Trails

/-- At the end of a context both sessions have the scope of its begin. -/
theorem Trails.leaveScope_eq_ok {scope : Scope} (h : Trails (scope :: saved) session trailing)
    (hleave : Session.leaveScope.outcome session = (.ok (), after)) :
    ∃ again, Session.leaveScope.outcome trailing = (.ok (), again) ∧
      Trails saved after again := by
  obtain ⟨_, _, _, _, hholds, htrailing, -, hprobes⟩ := h
  obtain ⟨left, hleft, hsettled⟩ := htrailing.leaveScope
  obtain ⟨again, hagain, rfl, hnone⟩ := Follows.leaveScope.outcome_eq_ok hprobes hleft
  exact ⟨again, hagain, scope, scope.vars, [], [], (hholds.leaveScope_eq_ok hleave).holds,
    hsettled.holds, rfl, hnone⟩

end Session

end ShellFold
