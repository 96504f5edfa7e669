import ShellFold.Proofs.Resolve.Positions
import ShellFold.Proofs.Session.Projection

/-!
# Recording what is asked

`Recording σ` is an oracle that does what an oracle of state `σ` does and remembers each text that
it has been given to expand. A program does the same on a session with either (`Program.follows`),
so what the recording has at the end is what the program has put to the oracle: for the resolving of
a tree, only the sources of words that pass the scanner (`resolve_probes`).
-/

set_option autoImplicit false

namespace ShellFold

/-- A text given to an oracle to be expanded. -/
structure Probe where
  text : Text
  mode : Mode
  deriving DecidableEq, Repr

/-- An oracle with what it has been given to expand, in order. -/
structure Recording (σ : Type) where
  oracle : σ
  probes : List Probe := []

namespace Recording

variable {σ α : Type}

/-- An attempt on the oracle, which leaves the record as it is. -/
def onOracle (x : Attempt σ α) : Attempt (Recording σ) α :=
  Attempt.ofOutcome fun recording =>
    let (result, oracle) := x.outcome recording.oracle
    (result, { recording with oracle })

instance [Oracle σ] : Oracle (Recording σ) where
  expand s mode := do
    modify fun recording => { recording with probes := recording.probes ++ [⟨s, mode⟩] }
    onOracle (Oracle.expand s mode)
  source script := onOracle (Oracle.source script)
  setPositional values := onOracle (Oracle.setPositional values)
  shellOptions := onOracle Oracle.shellOptions
  enterScope := onOracle Oracle.enterScope
  leaveScope := onOracle Oracle.leaveScope
  acceptsAssignments recording := Oracle.acceptsAssignments recording.oracle
  close := onOracle Oracle.close

theorem oracle_extends [Oracle σ] : Oracle.Extends (Recording.oracle (σ := σ)) where
  expand _ _ _ := rfl
  source _ _ := rfl
  enterScope _ := rfl
  leaveScope _ := rfl
  acceptsAssignments _ := rfl

end Recording

namespace Session

variable {σ τ α β : Type}

/-- The session with a record of what its oracle is given to expand from now on. -/
def recording (session : Session σ) : Session (Recording σ) := session.mapOracle ({ oracle := · })

/-- The session without the record. -/
def unrecorded (session : Session (Recording σ)) : Session σ := session.mapOracle (·.oracle)

/-- The record of an open session. -/
def probes (session : Session (Recording σ)) : List Probe :=
  match session.live with
  | some (recording, _) => recording.probes
  | none => []

@[simp] theorem unrecorded_recording (session : Session σ) :
    session.recording.unrecorded = session :=
  mapOracle_leftInverse (fun _ => rfl) session

@[simp] theorem probes_recording (session : Session σ) : session.recording.probes = [] := by
  obtain ⟨_, _, _, live, _, _⟩ := session
  cases live <;> rfl

/-! ## Following an attempt -/

variable {Probes : Text → Mode → Prop}

/-- With a record, the attempt does what it does without, and has only such texts expanded as
`Probes` allows. -/
def Follows (Probes : Text → Mode → Prop) (x : Attempt (Session σ) α)
    (y : Attempt (Session (Recording σ)) α) : Prop :=
  ∀ session : Session (Recording σ),
    ((y.outcome session).1, (y.outcome session).2.unrecorded) = x.outcome session.unrecorded ∧
      ∀ probe ∈ (y.outcome session).2.probes,
        probe ∈ session.probes ∨ Probes probe.text probe.mode

/-- The record has what is given and, apart from that, only what `Probes` allows. -/
def Recorded (Probes : Text → Mode → Prop) (before : List Probe) (session : Session (Recording σ)) :
    Prop :=
  ∀ probe ∈ session.probes, probe ∈ before ∨ Probes probe.text probe.mode

namespace Recorded

open Attempt (Maintains)

variable {before : List Probe}

theorem onLive {x : Attempt (Recording σ × Journal) α}
    (h : ∀ recording journal, ∀ probe ∈ (x.outcome (recording, journal)).2.1.probes,
      probe ∈ recording.probes ∨ Probes probe.text probe.mode) :
    Maintains (Recorded Probes before) (Session.onLive x) := by
  rintro ⟨settings, environment, host, live, archive, journalFiles⟩ hbefore
  rcases live with _ | ⟨recording, journal⟩
  · exact hbefore
  · intro probe hprobe
    rcases h recording journal probe hprobe with hmem | hallowed
    · exact hbefore probe hmem
    · exact .inr hallowed

theorem ask_onOracle (x : Attempt σ α) :
    Maintains (Recorded Probes before) (Session.ask (Recording.onOracle x)) :=
  onLive fun _ _ _ h => .inl h

theorem onJournal (x : Attempt Journal α) :
    Maintains (Recorded (σ := σ) Probes before) (Session.onLive (Attempt.onSecond x)) :=
  onLive fun _ _ _ h => .inl h

variable [Oracle σ]

theorem flush : Maintains (Recorded (σ := σ) Probes before) Session.flush := by
  refine onLive fun recording journal => ?_
  simp only [Journal.flush, Attempt.outcome_ofOutcome]
  split
  · exact fun _ h => .inl h
  · exact fun _ h => .inl h

theorem expandText {s : Text} {mode : Mode} (h : Probes s mode) :
    Maintains (Recorded (σ := σ) Probes before) (Session.expandText s mode) := by
  have hexpand : Maintains (Recorded (σ := σ) Probes before)
      (Session.ask (Oracle.expand s mode)) := by
    refine onLive fun recording journal probe hprobe => ?_
    rcases List.mem_append.1 hprobe with hbefore | hnew
    · exact .inl hbefore
    · rw [List.mem_singleton.1 hnew]
      exact .inr h
  exact maintains_expandText flush hexpand

theorem recordAssignment (name value : Text) :
    Maintains (Recorded (σ := σ) Probes before) (Session.recordAssignment name value) :=
  maintains_recordAssignment (onJournal _)

theorem enterScope : Maintains (Recorded (σ := σ) Probes before) Session.enterScope :=
  maintains_enterScope flush (ask_onOracle _)

theorem leaveScope : Maintains (Recorded (σ := σ) Probes before) Session.leaveScope :=
  maintains_leaveScope (onJournal _) (ask_onOracle _)

end Recorded

namespace Follows

variable {x : Attempt (Session σ) α} {y : Attempt (Session (Recording σ)) α}

theorem of_maintains (h : Attempt.Projects unrecorded y x)
    (h' : ∀ before, Attempt.Maintains (Recorded Probes before) y) : Follows Probes x y :=
  fun session => ⟨h session, h' session.probes fun _ hprobe => .inl hprobe⟩

variable [Oracle σ]

theorem acceptsAssignments (session : Session (Recording σ)) :
    session.unrecorded.acceptsAssignments = session.acceptsAssignments :=
  acceptsAssignments_mapOracle Recording.oracle_extends session

theorem recordAssignment (name value : Text) : Follows (σ := σ) Probes
    (Session.recordAssignment name value) (Session.recordAssignment name value) :=
  of_maintains (projects_recordAssignment Recording.oracle_extends name value) fun _ =>
    .recordAssignment name value

theorem enterScope : Follows (σ := σ) Probes Session.enterScope Session.enterScope :=
  of_maintains (projects_enterScope Recording.oracle_extends) fun _ => .enterScope

theorem leaveScope : Follows (σ := σ) Probes Session.leaveScope Session.leaveScope :=
  of_maintains (projects_leaveScope Recording.oracle_extends) fun _ => .leaveScope

end Follows

/-- **A program does the same with a record and without**, and the record has nothing but what the
program may have expanded. -/
theorem Program.follows [Oracle σ] {Records : Text → Prop} {x : Attempt (Session σ) α}
    {y : Attempt (Session (Recording σ)) α} (h : Program Probes Records x y) :
    Follows Probes x y := by
  refine .of_maintains (h.projects Recording.oracle_extends) (h.symm.maintains ?_ ?_ ?_ ?_)
  · exact fun session => ⟨session.unrecorded, (Follows.acceptsAssignments session).symm⟩
  · exact fun s mode hprobes _ => Recorded.expandText hprobes
  · exact fun name value _ => Recorded.recordAssignment name value
  · exact fun hbody before => maintains_inScope Recorded.enterScope.after
      Recorded.enterScope.after (Recorded.leaveScope ·) (hbody before)

end Session

/-- **Nothing is expanded that has not been scanned.** On a session with any oracle, resolving a
tree has only texts expanded that are the source of a word of the tree that passes the scanner,
each in the mode of the place at which the word stands. -/
theorem resolve_probes {σ : Type} [Oracle σ] (node : Node) (session : Session σ) :
    let (result, after) := node.resolve.outcome session.recording
    (result, after.unrecorded) = node.resolve.outcome session ∧
      ∀ probe ∈ after.probes, node.Probed probe.text probe.mode := by
  obtain ⟨hsame, hprobes⟩ := node.program_resolve.follows session.recording
  rw [Session.unrecorded_recording] at hsame
  refine ⟨hsame, fun probe hprobe => ?_⟩
  rcases hprobes probe hprobe with hbefore | hprobed
  · rw [Session.probes_recording] at hbefore
    cases hbefore
  · exact hprobed

end ShellFold
