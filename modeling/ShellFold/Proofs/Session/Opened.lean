import ShellFold.Proofs.Environment
import ShellFold.Proofs.Session.Mirrors

/-!
# Opened sessions

A session is opened by defining its environment in a new oracle: the statements that define the
variables go through the journal, and what the oracle has done then is `Environment.install`
(`start?_settled`). A loadable environment is taken over as it is, and no other can be opened
(`start?_loads`), so a session that is opened with a plain environment mirrors it
(`start?_mirrors`). Whatever fails on the way, the file of the journal is left empty
(`FileEmpty.start`).
-/

set_option autoImplicit false

namespace ShellFold

namespace Session

/-! ## The file of the journal -/

section

variable {σ α : Type}

/-- What questions, flushes and statements put into the journal maintain is maintained when an
environment is loaded. -/
theorem maintains_loadEnvironment [Connected σ] {P : Session σ → Prop}
    (hask : ∀ {α : Type} (x : Attempt σ α), Attempt.Maintains P (ask x))
    (hpush : ∀ statement, Attempt.Maintains P (onLive (Attempt.onSecond (Journal.push statement))))
    (hflush : Attempt.Maintains P flush) : Attempt.Maintains P loadEnvironment := by
  refine .bind .get fun session => ?_
  have hdefine := (Attempt.Maintains.forM hpush session.environment.statements).bind
    fun _ => hflush.bind fun _ =>
      (hask (Oracle.setPositional session.environment.positional)).bind fun _ =>
        (hask Oracle.shellOptions).bind fun options => .ofExcept (checkOptions options)
  cases session.environment.dumpFile with
  | none => exact hdefine
  | some path => exact (hask _).bind fun _ => hdefine

/-- The file of the journal is empty, if there is one. -/
def FileEmpty (session : Session σ) : Prop :=
  ∀ oracle journal, session.live = some (oracle, journal) → journal.content = []

namespace FileEmpty

open Attempt (Maintains)

theorem onLive {x : Attempt (σ × Journal) α}
    (h : ∀ oracle journal, journal.content = [] →
      (x.outcome (oracle, journal)).2.2.content = []) :
    Maintains FileEmpty (Session.onLive x) := by
  intro session hempty
  rcases hlive : session.live with _ | ⟨oracle, journal⟩
  · rw [outcome_onLive_none hlive]
    exact hempty
  · rw [outcome_onLive_some hlive]
    intro _ after hafter
    obtain rfl : _ = after := congrArg Prod.snd (Option.some.inj hafter)
    exact h oracle journal (hempty oracle journal hlive)

theorem ask (x : Attempt σ α) : Maintains FileEmpty (Session.ask x) := onLive fun _ _ h => h

theorem push (statement : Statement) :
    Maintains (σ := Session σ) FileEmpty
      (Session.onLive (Attempt.onSecond (Journal.push statement))) := by
  refine onLive fun oracle journal h => ?_
  rw [Journal.push]
  rcases statement.render with e | line
  · exact h
  · exact h

theorem flush [Oracle σ] : Maintains (σ := Session σ) FileEmpty Session.flush := by
  refine onLive fun oracle journal h => ?_
  rw [Journal.content_flush _ _ _ h]
  exact h

variable [Connected σ]

theorem loadEnvironment : Maintains (σ := Session σ) FileEmpty Session.loadEnvironment :=
  maintains_loadEnvironment ask push flush

theorem close : Maintains (σ := Session σ) FileEmpty Session.close := by
  refine .bind .get fun session => ?_
  rcases session.live with _ | ⟨oracle, _⟩
  · exact .pure ()
  · -- what is set is a closed session, which has no file
    exact .bind (fun _ _ _ _ h => nomatch h) fun _ => .ofExcept _

theorem connect : Maintains (σ := Session σ) FileEmpty Session.connect := by
  intro session hempty
  rw [Session.connect, Attempt.outcome_bind_ok Attempt.outcome_get]
  rcases hconnect : (Connected.connect session.settings session.host).outcome
    (Connected.create session.settings session.environment : σ) with ⟨e | ⟨⟩, oracle⟩
  · simp only [hconnect]
    exact hempty
  · simp only [hconnect]
    rintro _ _ ⟨⟩
    rfl

/-- However a session is started, the file of its journal is empty. -/
theorem start : Maintains (σ := Session σ) FileEmpty Session.start := by
  refine .bind .get fun session => .bind (.ofExcept _) fun _ => .guard ?_
  refine connect.bind fun _ => loadEnvironment.observe.bind fun result => ?_
  cases result with
  | ok => exact .pure ()
  | error e => exact close.observe.bind fun _ => .throw e

end FileEmpty

end

variable {session after : Session Builtin} {builtin : Builtin}

/-! ## Loading an environment -/

/-- The variables and the positional parameters of an environment are defined in the oracle, whose
option flags are then looked at. -/
def defineEnvironment (environment : Environment) : Attempt (Session Builtin) Unit := do
  forM environment.statements define
  flush
  ask (Oracle.setPositional environment.positional)
  Attempt.ofExcept (checkOptions (← ask Oracle.shellOptions))

theorem outcome_loadEnvironment_none (h : session.environment.dumpFile = none) :
    loadEnvironment.outcome session = (defineEnvironment session.environment).outcome session := by
  rw [loadEnvironment, Attempt.outcome_bind_ok Attempt.outcome_get, h]
  rfl

theorem outcome_loadEnvironment_some {path : Text} (h : session.environment.dumpFile = some path) :
    loadEnvironment.outcome session =
      (ask (Oracle.source ⟨path, session.host.fileText path⟩) >>= fun _ =>
        defineEnvironment session.environment).outcome session := by
  rw [loadEnvironment, Attempt.outcome_bind_ok Attempt.outcome_get, h]
  rfl

theorem defineEnvironment_eq_ok {environment : Environment} (h : session.Settled builtin)
    (hdefine : (defineEnvironment environment).outcome session = (.ok (), after)) :
    ∃ last, environment.define.outcome builtin = (.ok (), last) ∧ after.Settled last := by
  obtain ⟨⟨⟩, _, hstatements, hdefine⟩ := Attempt.outcome_bind_eq_ok.1 hdefine
  obtain ⟨⟨⟩, _, hflush, hdefine⟩ := Attempt.outcome_bind_eq_ok.1 hdefine
  obtain ⟨⟨⟩, _, hposition, hdefine⟩ := Attempt.outcome_bind_eq_ok.1 hdefine
  obtain ⟨options, _, hoptions, hdefine⟩ := Attempt.outcome_bind_eq_ok.1 hdefine
  obtain rfl : _ = after := congrArg Prod.snd hdefine
  have hholds : Holds _ environment.statements builtin := h.holds.forM_define_eq_ok hstatements
  obtain ⟨vars, happly, hflushed⟩ := hholds.flush_eq_ok hflush
  obtain ⟨_, hset, hpositioned⟩ := hflushed.ask_eq_ok hposition
  obtain ⟨_, hget, hlast⟩ := hpositioned.ask_eq_ok hoptions
  cases hset
  cases hget
  refine ⟨_, ?_, hlast⟩
  rw [Environment.define, Attempt.outcome_bind_ok (Builtin.outcome_onVariables happly)]
  rfl

/-- What the oracle has done when an environment is loaded. -/
theorem loadEnvironment_eq_ok (h : session.Settled builtin)
    (hload : loadEnvironment.outcome session = (.ok (), after)) :
    ∃ last, (session.environment.install session.host).outcome builtin = (.ok (), last) ∧
      after.Settled last := by
  unfold Environment.install
  cases hdump : session.environment.dumpFile with
  | none =>
    rw [outcome_loadEnvironment_none hdump] at hload
    exact defineEnvironment_eq_ok h hload
  | some path =>
    rw [outcome_loadEnvironment_some hdump] at hload
    obtain ⟨⟨⟩, _, hsource, hload⟩ := Attempt.outcome_bind_eq_ok.1 hload
    obtain ⟨_, hsourced, hmid⟩ := h.ask_eq_ok hsource
    obtain ⟨last, hlast, hafter⟩ := defineEnvironment_eq_ok hmid hload
    exact ⟨last, (Attempt.outcome_bind_ok hsourced).trans hlast, hafter⟩

/-- A loadable environment is taken over as it is by an oracle that is new to it. -/
theorem defineEnvironment_of_isLoadable {environment : Environment} (h : environment.IsLoadable)
    (hnew : session.Settled (.new environment.options)) :
    ∃ after, (defineEnvironment environment).outcome session = (.ok (), after) ∧
      after.Settled { scope := environment.scope } := by
  have hwritten : ∀ statement ∈ environment.statements, statement.render.isOk = true :=
    Environment.isOk_render_statements.2 fun e he => ⟨h.name e he, h.value e he⟩
  rcases hnew.holds.forM_define environment.statements with
    ⟨defined, hdefine, hholds⟩ | ⟨statement, hmem, e, _, hrender, -⟩
  · obtain ⟨flushed, hflush, hflushed⟩ :=
      hholds.flush_of_apply (Environment.outcome_statements h.name)
    obtain ⟨positioned, hposition, hpositioned⟩ :=
      hflushed.ask (Oracle.setPositional environment.positional)
    obtain ⟨after, hoptions, hafter⟩ := hpositioned.ask Oracle.shellOptions
    refine ⟨after, ?_, hafter⟩
    rw [defineEnvironment, Attempt.outcome_bind_ok hdefine, Attempt.outcome_bind_ok hflush,
      Attempt.outcome_bind_ok hposition, Attempt.outcome_bind_ok hoptions]
    exact congrArg (·, after) (checkOptions_eq_ok.2 ⟨h.errexit, h.nounset⟩)
  · have hok := hwritten statement hmem
    rw [hrender] at hok
    cases hok

/-- An environment with a name that is not valid, or with a NUL in a value, cannot be defined. -/
theorem defineEnvironment_error {environment : Environment} (h : session.Settled builtin)
    (hbad : ¬ ∀ e ∈ environment.vars.entries, Text.isName e.1 = true ∧ '\x00' ∉ e.2.value) :
    ∃ cause after, (defineEnvironment environment).outcome session =
      (.error (.early cause), after) := by
  rcases h.holds.forM_define environment.statements with
    ⟨_, -, hholds⟩ | ⟨statement, -, e, after, hrender, hdefine⟩
  · exact absurd (Environment.isOk_render_statements.1 hholds.isOk_render) hbad
  · obtain ⟨cause, rfl⟩ := Statement.render_eq_error hrender
    exact ⟨cause, after, Attempt.outcome_bind_error hdefine⟩

/-! ## Starting -/

section

variable {settings : OracleSettings} {environment : Environment} {host : Host}

/-- The session whose oracle is connected and new to the environment. -/
def connected (settings : OracleSettings) (environment : Environment) (host : Host) :
    Session Builtin :=
  let closed : Session Builtin := .new settings environment host
  let journal : Journal := { path := closed.directory ++ journalName }
  { closed with live := some (.new environment.options, journal), journalFiles := [journal.path] }

theorem settled_connected (settings : OracleSettings) (environment : Environment) (host : Host) :
    (connected settings environment host).Settled (.new environment.options) := ⟨_, rfl, rfl⟩

/-- Options under which expanding could end the shell are refused. -/
theorem start?_of_checkOptions {e : Failure} (h : checkOptions environment.options = .error e) :
    start? settings environment host =
      (.error e, (new settings environment host : Session Builtin)) := by
  have hcheck : (Attempt.ofExcept (checkOptions environment.options)).outcome
      (new settings environment host : Session Builtin) =
        (.error e, new settings environment host) := congrArg (·, _) h
  rw [start?, start, Attempt.outcome_bind_ok Attempt.outcome_get]
  exact Attempt.outcome_bind_error hcheck

/-- Where the journal has no directory to be in, no session is started. -/
theorem start?_of_not_hasDirectory (hcheck : checkOptions environment.options = .ok ())
    (hdirectory : host.hasDirectory
      ((settings.directory? host.home).getD host.temporaryDirectory) = false) :
    start? settings environment host =
      (.error (.io (.missingDirectory
        ((settings.directory? host.home).getD host.temporaryDirectory))),
        (new settings environment host : Session Builtin)) := by
  have hcheck : (Attempt.ofExcept (checkOptions environment.options)).outcome
      (new settings environment host : Session Builtin) = (.ok (), new settings environment host) :=
    congrArg (·, _) hcheck
  rw [start?, start, Attempt.outcome_bind_ok Attempt.outcome_get]
  refine (Attempt.outcome_bind_ok hcheck).trans ?_
  rw [if_pos]
  · rfl
  · simp [directory, new, hdirectory]

/-- The environment is loaded into a new oracle, and a session that it cannot be loaded into is
closed again. -/
theorem start?_eq (hcheck : checkOptions environment.options = .ok ())
    (hdirectory : host.hasDirectory
      ((settings.directory? host.home).getD host.temporaryDirectory) = true) :
    start? settings environment host =
      match loadEnvironment.outcome (connected settings environment host) with
      | (.ok (), session) => (.ok (), session)
      | (.error e, session) => (.error e, (close.observe.outcome session).2) := by
  have hcheck : (Attempt.ofExcept (checkOptions environment.options)).outcome
      (new settings environment host : Session Builtin) = (.ok (), new settings environment host) :=
    congrArg (·, _) hcheck
  have hconnect : connect.outcome (new settings environment host) =
      (.ok (), connected settings environment host) := rfl
  rw [start?, start, Attempt.outcome_bind_ok Attempt.outcome_get]
  refine (Attempt.outcome_bind_ok hcheck).trans ?_
  rw [if_neg]
  · rw [Attempt.outcome_bind_ok hconnect, Attempt.outcome_bind_ok (Attempt.outcome_observe _ _)]
    rcases loadEnvironment.outcome (connected settings environment host) with ⟨e | ⟨⟩, session⟩
    · rfl
    · rfl
  · simp [directory, new, hdirectory]

/-- A session that could be opened: its journal has a directory to be in, and its oracle has taken
over the environment. -/
theorem start?_settled (h : start? settings environment host = (.ok (), session)) :
    host.hasDirectory ((settings.directory? host.home).getD host.temporaryDirectory) = true ∧
      ∃ last, (environment.install host).outcome (.new environment.options) = (.ok (), last) ∧
        session.Settled last := by
  rcases hcheck : checkOptions environment.options with e | ⟨⟩
  · rw [start?_of_checkOptions hcheck] at h
    cases h
  cases hdirectory :
    host.hasDirectory ((settings.directory? host.home).getD host.temporaryDirectory) with
  | false =>
    rw [start?_of_not_hasDirectory hcheck hdirectory] at h
    cases h
  | true =>
    refine ⟨rfl, ?_⟩
    rw [start?_eq hcheck hdirectory] at h
    split at h
    · next loaded hload =>
      cases h
      exact loadEnvironment_eq_ok (settled_connected settings environment host) hload
    · cases h

/-- A loadable environment is taken over as it is by the oracle of the session that is opened. -/
theorem start?_of_isLoadable (settings : OracleSettings) (h : environment.IsLoadable)
    (hdump : environment.dumpFile = none)
    (hdirectory : host.hasDirectory
      ((settings.directory? host.home).getD host.temporaryDirectory) = true) :
    ∃ session : Session Builtin, start? settings environment host = (.ok (), session) ∧
      session.Settled { scope := environment.scope } := by
  obtain ⟨session, hload, hsettled⟩ :=
    defineEnvironment_of_isLoadable h (settled_connected settings environment host)
  have hload : loadEnvironment.outcome (connected settings environment host) = (.ok (), session) :=
    (outcome_loadEnvironment_none hdump).trans hload
  refine ⟨session, ?_, hsettled⟩
  rw [start?_eq (checkOptions_eq_ok.2 ⟨h.errexit, h.nounset⟩) hdirectory, hload]

/-- An environment that is not loadable is refused. -/
theorem start?_of_not_isLoadable (settings : OracleSettings) (h : ¬ environment.IsLoadable)
    (hdump : environment.dumpFile = none)
    (hdirectory : host.hasDirectory
      ((settings.directory? host.home).getD host.temporaryDirectory) = true) :
    ∃ (cause : Early) (session : Session Builtin),
      start? settings environment host = (.error (.early cause), session) := by
  rcases hcheck : checkOptions environment.options with e | ⟨⟩
  · obtain ⟨cause, rfl⟩ := checkOptions_eq_error hcheck
    exact ⟨cause, _, start?_of_checkOptions hcheck⟩
  · have hbad : ¬ ∀ e ∈ environment.vars.entries, Text.isName e.1 = true ∧ '\x00' ∉ e.2.value := by
      intro hgood
      obtain ⟨herrexit, hnounset⟩ := checkOptions_eq_ok.1 hcheck
      exact h ⟨fun e he => (hgood e he).1, fun e he => (hgood e he).2, herrexit, hnounset⟩
    obtain ⟨cause, session, hload⟩ :=
      defineEnvironment_error (settled_connected settings environment host) hbad
    have hload : loadEnvironment.outcome (connected settings environment host) =
        (.error (.early cause), session) := (outcome_loadEnvironment_none hdump).trans hload
    exact ⟨cause, _, by rw [start?_eq hcheck hdirectory, hload]⟩

/-- **A session that is opened with a plain environment mirrors it.** -/
theorem start?_mirrors (settings : OracleSettings) (h : environment.IsPlain)
    (hdirectory :
      host.hasDirectory ((settings.directory? host.home).getD host.temporaryDirectory) = true) :
    ∃ session : Session Builtin, start? settings environment host = (.ok (), session) ∧
      session.Mirrors [] environment.scope := by
  obtain ⟨session, hstart, hsettled⟩ :=
    start?_of_isLoadable settings h.isLoadable h.dumpFile hdirectory
  refine ⟨session, hstart, hsettled.mirrors fun name v hv => ?_⟩
  exact h.writable _ ((Variables.get?_eq_some_iff _ _ _).1 hv)

/-- Whatever session could be opened with a plain environment, it mirrors it. -/
theorem mirrors_of_start? (h : environment.IsPlain)
    (hstart : start? settings environment host = (.ok (), session)) :
    session.Mirrors [] environment.scope := by
  obtain ⟨_, hagain, hmirrors⟩ := start?_mirrors settings h (start?_settled hstart).1
  rw [hstart] at hagain
  cases hagain
  exact hmirrors

end

end Session

end ShellFold
