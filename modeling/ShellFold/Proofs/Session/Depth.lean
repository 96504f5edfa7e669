import ShellFold.Proofs.Interpreter.Depth
import ShellFold.Proofs.Resolve.Positions
import ShellFold.Proofs.Session.Projection
import ShellFold.Proofs.Session.Settled

/-!
# Contexts are balanced

`Traced σ` is an oracle that does what an oracle of state `σ` does and remembers the states in which
it has been left. On an interpreter each operation changes the depth at most once, so the depths of
these states and of the first one are all that there have been. A context that could be begun is
one deeper inside, and its end takes the depth back whether it is answered or not
(`OpenAt.inScope`); so resolving a tree ends at the depth that it began at, and stays at or above it
on the way (`resolve_keeps_depth`).
-/

set_option autoImplicit false

namespace ShellFold

/-- An oracle with the states that it has come to, in order. -/
structure Traced (σ : Type) where
  oracle : σ
  passed : List σ := []

namespace Traced

section

variable {σ α : Type}

/-- An attempt on the oracle. The state in which it leaves the oracle is remembered. -/
def pass (x : Attempt σ α) : Attempt (Traced σ) α :=
  Attempt.ofOutcome fun traced =>
    let (result, oracle) := x.outcome traced.oracle
    (result, { oracle, passed := traced.passed ++ [oracle] })

variable [Oracle σ]

instance : Oracle (Traced σ) where
  expand s mode := pass (Oracle.expand s mode)
  source script := pass (Oracle.source script)
  setPositional values := pass (Oracle.setPositional values)
  shellOptions := pass Oracle.shellOptions
  enterScope := pass Oracle.enterScope
  leaveScope := pass Oracle.leaveScope
  acceptsAssignments traced := Oracle.acceptsAssignments traced.oracle
  close := pass Oracle.close

theorem oracle_extends : Oracle.Extends (Traced.oracle (σ := σ)) where
  expand _ _ _ := rfl
  source _ _ := rfl
  enterScope _ := rfl
  leaveScope _ := rfl
  acceptsAssignments _ := rfl

end

/-- The interpreter is at the given depth, and has come to no state below `floor`. -/
structure At (floor depth : Nat) (traced : Traced Interpreter) : Prop where
  depth_eq : traced.oracle.depth = depth
  floor_le : floor ≤ depth
  passed : ∀ it ∈ traced.passed, floor ≤ it.depth

theorem At.pass {α : Type} {floor depth after : Nat} {traced : Traced Interpreter}
    (h : traced.At floor depth) {x : Attempt Interpreter α}
    (hdepth : (x.outcome traced.oracle).2.depth = after) (hfloor : floor ≤ after) :
    ((Traced.pass x).outcome traced).2.At floor after := by
  refine ⟨hdepth, hfloor, fun it hit => ?_⟩
  rcases List.mem_append.1 hit with hbefore | hlast
  · exact h.passed it hbefore
  · rw [List.mem_singleton.1 hlast]
    exact hfloor.trans_eq hdepth.symm

end Traced

namespace Session

/-- The session with a trace of the states that its oracle comes to from now on. -/
def traced {σ : Type} (session : Session σ) : Session (Traced σ) :=
  session.mapOracle ({ oracle := · })

/-- The session without the trace. -/
def untraced {σ : Type} (session : Session (Traced σ)) : Session σ := session.mapOracle (·.oracle)

@[simp] theorem untraced_traced {σ : Type} (session : Session σ) :
    session.traced.untraced = session :=
  mapOracle_leftInverse (fun _ => rfl) session

/-- The session is open on an interpreter at the given depth, which has come to no state below
`floor`. -/
def OpenAt (floor depth : Nat) (session : Session (Traced Interpreter)) : Prop :=
  ∃ traced journal, session.live = some (traced, journal) ∧ traced.At floor depth

namespace OpenAt

open Attempt (Maintains)

variable {α : Type} {floor depth : Nat} {session after : Session (Traced Interpreter)}

/-! ## Steps -/

/-- What keeps the depth of an interpreter does so in a session. -/
theorem onLive {x : Attempt (Traced Interpreter × Journal) α}
    (h : ∀ traced journal, traced.At floor depth →
      (x.outcome (traced, journal)).2.1.At floor depth) :
    Maintains (OpenAt floor depth) (Session.onLive x) := by
  rintro session ⟨traced, journal, hlive, hat⟩
  rw [outcome_onLive_some hlive]
  exact ⟨_, _, rfl, h traced journal hat⟩

theorem onJournal (x : Attempt Journal α) :
    Maintains (OpenAt floor depth) (Session.onLive (Attempt.onSecond x)) :=
  onLive fun _ _ hat => hat

theorem flush : Maintains (OpenAt floor depth) Session.flush := by
  refine onLive fun traced journal hat => ?_
  simp only [Journal.flush, Attempt.outcome_ofOutcome]
  split
  · exact hat
  · exact hat.pass ((Interpreter.depth_source _ _).trans hat.depth_eq) hat.floor_le

theorem expandText (s : Text) (mode : Mode) :
    Maintains (OpenAt floor depth) (Session.expandText s mode) := by
  have hexpand : Maintains (OpenAt floor depth) (ask (Oracle.expand s mode)) :=
    onLive fun traced _ hat =>
      hat.pass ((Interpreter.depth_expand s mode _).trans hat.depth_eq) hat.floor_le
  exact maintains_expandText flush hexpand

theorem recordAssignment (name value : Text) :
    Maintains (OpenAt floor depth) (Session.recordAssignment name value) :=
  maintains_recordAssignment (onJournal _)

/-! ## Contexts -/

theorem ask_enterScope (h : session.OpenAt floor depth) {result : Except Failure Unit}
    (hout : (ask Oracle.enterScope).outcome session = (result, after)) :
    after.OpenAt floor (if result.isOk then depth + 1 else depth) := by
  obtain ⟨traced, journal, hlive, hat⟩ := h
  rw [ask, outcome_onLive_some hlive, Prod.mk.injEq] at hout
  obtain ⟨rfl, rfl⟩ := hout
  have hdepth := Interpreter.depth_enterScope traced.oracle
  rw [hat.depth_eq] at hdepth
  refine ⟨_, journal, rfl, hat.pass hdepth ?_⟩
  split
  · exact Nat.le_succ_of_le hat.floor_le
  · exact hat.floor_le

/-- Within a context the interpreter is one deeper. -/
theorem enterScope_eq_ok (h : session.OpenAt floor depth)
    (hout : Session.enterScope.outcome session = (.ok (), after)) :
    after.OpenAt floor (depth + 1) := by
  obtain ⟨⟨⟩, flushed, hflush, hask⟩ := Attempt.outcome_bind_eq_ok.1 hout
  exact ask_enterScope (flush.after h hflush) hask

theorem enterScope_eq_error {e : Failure} (h : session.OpenAt floor depth)
    (hout : Session.enterScope.outcome session = (.error e, after)) :
    after.OpenAt floor depth := by
  rcases hflush : Session.flush.outcome session with ⟨e' | ⟨⟩, flushed⟩
  · rw [Session.enterScope, Attempt.outcome_bind_error hflush, Prod.mk.injEq] at hout
    obtain ⟨-, rfl⟩ := hout
    exact flush.after h hflush
  · rw [Session.enterScope, Attempt.outcome_bind_ok hflush] at hout
    exact ask_enterScope (flush.after h hflush) hout

/-- At the end of a context the interpreter is one less deep, even where the end fails. -/
theorem leaveScope (h : session.OpenAt floor (depth + 1)) (hfloor : floor ≤ depth) :
    (Session.leaveScope.outcome session).2.OpenAt floor depth := by
  obtain ⟨traced, journal, hlive, hat⟩ := h
  have hdiscard : (Session.onLive (Attempt.onSecond (modify Journal.discard))).outcome session =
      (.ok (), { session with live := some (traced, journal.discard) }) := by
    rw [outcome_onLive_some hlive]
    rfl
  have hdepth := Interpreter.depth_leaveScope traced.oracle
  rw [hat.depth_eq, Nat.add_sub_cancel] at hdepth
  rw [Session.leaveScope, Attempt.outcome_bind_ok hdiscard, ask, outcome_onLive_some rfl]
  exact ⟨_, _, rfl, hat.pass hdepth hfloor⟩

/-- A context that could be begun is ended, and one that could not is not. -/
theorem inScope {body : Attempt (Session (Traced Interpreter)) α}
    (hbody : ∀ depth, Maintains (OpenAt floor depth) body) (depth : Nat) :
    Maintains (OpenAt floor depth) (Session.inScope body) := by
  intro session h
  have hfloor : floor ≤ depth := by
    obtain ⟨_, _, _, hat⟩ := h
    exact hat.floor_le
  exact maintains_inScope enterScope_eq_ok enterScope_eq_error (leaveScope · hfloor)
    (hbody (depth + 1)) h

end OpenAt

/-- A program keeps the depth, and does not go below it. -/
theorem Program.openAt {α : Type} {Probes : Text → Mode → Prop} {Records : Text → Prop}
    {x y : Attempt (Session (Traced Interpreter)) α} (h : Program Probes Records x y)
    (floor depth : Nat) : Attempt.Maintains (OpenAt floor depth) x :=
  h.maintains (fun session => ⟨session, rfl⟩) (fun s mode _ _ => OpenAt.expandText s mode)
    (fun name value _ => OpenAt.recordAssignment name value) OpenAt.inScope depth

end Session

/-- **Contexts are balanced.** Whatever tree is resolved on an open session, and whatever the
interpreter answers or fails to, it is afterwards as deep as it was before, and it has at no time
been less deep. -/
theorem resolve_keeps_depth (node : Node) {session : Session Interpreter} {it : Interpreter}
    {journal : Journal} (hlive : session.live = some (it, journal)) :
    let (result, after) := node.resolve.outcome session.traced
    (result, after.untraced) = node.resolve.outcome session ∧
      ∃ last final, after.live = some (last, final) ∧ last.oracle.depth = it.depth ∧
        ∀ passed ∈ last.passed, it.depth ≤ passed.depth := by
  have hopen : session.traced.OpenAt it.depth it.depth := by
    refine ⟨{ oracle := it }, journal, ?_, rfl, Nat.le_refl _, nofun⟩
    rw [Session.traced, Session.mapOracle, hlive]
    rfl
  obtain ⟨last, final, hlast, hat⟩ := node.program_resolve.openAt it.depth it.depth hopen
  have hsame := node.program_resolve.projects Traced.oracle_extends session.traced
  change _ = node.resolve.outcome session.traced.untraced at hsame
  rw [Session.untraced_traced] at hsame
  exact ⟨hsame, last, final, hlast, hat.depth_eq, hat.passed⟩

/-- An inner context cannot be begun, since the interpreter falls silent; the end of the outer one
counts though it is not sent. -/
theorem resolve_keeps_depth_of_silence :
    let node : Node := .subshell (.subshell (.command ⟨none, [], [], []⟩) []) []
    let it : Interpreter :=
      { sentinel := ">".toList, timeout := 0, terminal := some { unread := [62] }, depth := 1 }
    let session : Session Interpreter :=
      { settings := {}, environment := {}
        host := { hasDirectory := fun _ => true, fileText := fun _ => none }
        live := some (it, { path := [] }) }
    let (result, after) := node.resolve.outcome session.traced
    session.live = some (it, { path := [] }) ∧
      ((result, after.untraced) = node.resolve.outcome session ∧
        ∃ last final, after.live = some (last, final) ∧ last.oracle.depth = it.depth ∧
          ∀ passed ∈ last.passed, it.depth ≤ passed.depth) ∧
      after.live.map (fun live => live.1.passed.map (·.depth)) = some [2, 2, 1] := by
  intro node it session
  have hlive : session.live = some (it, { path := [] }) := rfl
  have hkept := resolve_keeps_depth node hlive
  refine ⟨hlive, hkept, ?_⟩
  cbv

end ShellFold
