import ShellFold.Proofs.Session.Client
import ShellFold.Proofs.Session.Opened

/-!
# The life of a session

An open session has an oracle, a journal and the journal's file, and they come and go together.
`Session.Orderly` is what every operation maintains of them, also where it fails, and where a
context ends whose session was closed or started anew in between. An orderly session that is closed
is like new (`Orderly.outcome_close`), so starting it anew is the same as starting a session
(`Orderly.outcome_reopen`).
-/

set_option autoImplicit false

namespace ShellFold

/-- Source text for a word can only be refused because of a literal that cannot be quoted. -/
theorem Word.sourceText_eq_error {w : Word} {e : Failure} (h : w.sourceText = .error e) :
    ∃ cause, e = .early cause := by
  obtain ⟨fragments⟩ := w
  induction fragments generalizing e with
  | nil => cases h
  | cons f fragments ih =>
    rw [sourceText_cons] at h
    rcases hf : f.sourceText with e' | s
    · rw [hf] at h
      cases h
      cases f with
      | raw c => cases hf
      | quoted text =>
        rw [Fragment.sourceText_quoted, quoteLiteral] at hf
        split at hf
        · cases hf
        · cases hf
          exact ⟨_, rfl⟩
    · rcases hrest : sourceText ⟨fragments⟩ with e' | t
      · rw [hf, hrest] at h
        cases h
        exact ih hrest
      · rw [hf, hrest] at h
        cases h

namespace Session

section

variable {σ α : Type} (session : Session σ)

def oracle? : Option σ := session.live.map Prod.fst

def journal? : Option Journal := session.live.map Prod.snd

/-! ## Closed sessions -/

variable {session} (h : session.live = none)
include h

theorem pending_of_closed : session.pending = [] := by rw [pending, h]

variable [Oracle σ]

theorem expandText_of_closed (s : Text) (mode : Mode) :
    (expandText s mode).outcome session = (.error (.early .sessionClosed), session) :=
  Attempt.outcome_bind_error (outcome_onLive_none h _)

theorem expand_of_closed (w : Word) (mode : Mode) :
    ∃ cause, (expand w mode).outcome session = (.error (.early cause), session) := by
  show ∃ cause, (Attempt.ofExcept (w.sourceIn mode) >>=
    fun source => expandText source mode).outcome session = _
  rw [Attempt.outcome_bind, Attempt.outcome_ofExcept]
  rcases hsource : w.sourceIn mode with e | source
  · unfold Word.sourceIn at hsource
    split at hsource
    · cases hsource
    · obtain ⟨cause, rfl⟩ := Word.sourceText_eq_error hsource
      exact ⟨cause, rfl⟩
  · exact ⟨_, expandText_of_closed h source mode⟩

theorem inScope_of_closed (body : Attempt (Session σ) α) :
    (inScope body).outcome session = (.error (.early .sessionClosed), session) := by
  have henter : enterScope.outcome session = (.error (.early .sessionClosed), session) :=
    Attempt.outcome_bind_error (outcome_onLive_none h _)
  exact Attempt.outcome_bind_error henter

end

/-! ## Orderly sessions -/

/-- The session is one that was started with the settings and the environment: the only file of a
journal is that of its journal, if it is open, and this is empty; only lines that `Allowed` admits
are pending. -/
structure Orderly (Allowed : Text → Prop) (settings : OracleSettings) (environment : Environment)
    (session : Session Builtin) : Prop where
  settings : session.settings = settings
  environment : session.environment = environment
  archive : session.archive = []
  journalFiles : session.journalFiles = (session.journal?.map (·.path)).toList
  fileEmpty : session.FileEmpty
  pending : ∀ line ∈ session.pending, Allowed line

namespace Orderly

open Attempt (Maintains)

variable {Allowed : Text → Prop} {settings : OracleSettings} {environment : Environment}
  {session : Session Builtin} {host : Host} {α : Type}

/-- What keeps to the journal's file, leaves it empty and only what is allowed pending. -/
theorem onLive {x : Attempt (Builtin × Journal) α}
    (h : ∀ builtin journal, journal.content = [] → (∀ line ∈ journal.pending, Allowed line) →
      let after := (x.outcome (builtin, journal)).2.2
      after.path = journal.path ∧ after.content = [] ∧ ∀ line ∈ after.pending, Allowed line) :
    Maintains (Orderly Allowed settings environment) (Session.onLive x) := by
  intro session horderly
  rcases hlive : session.live with _ | ⟨builtin, journal⟩
  · rw [outcome_onLive_none hlive]
    exact horderly
  · have hpending := horderly.pending
    rw [Session.pending, hlive] at hpending
    obtain ⟨hpath, hcontent, hafter⟩ :=
      h builtin journal (horderly.fileEmpty builtin journal hlive) hpending
    have hfiles := horderly.journalFiles
    rw [journal?, hlive] at hfiles
    rw [outcome_onLive_some hlive]
    refine ⟨horderly.settings, horderly.environment, horderly.archive, ?_, ?_, hafter⟩
    · refine hfiles.trans ?_
      simp only [journal?, Option.map_some, hpath]
    · intro _ last hlast
      obtain rfl : _ = last := congrArg Prod.snd (Option.some.inj hlast)
      exact hcontent

theorem ask (x : Attempt Builtin α) :
    Maintains (Orderly Allowed settings environment) (Session.ask x) :=
  onLive fun _ _ hcontent hpending => ⟨rfl, hcontent, hpending⟩

theorem flush : Maintains (Orderly Allowed settings environment) Session.flush := by
  refine onLive fun builtin journal hcontent hpending => ?_
  rw [Journal.content_flush _ _ _ hcontent]
  exact ⟨rfl, hcontent, fun _ h => nomatch h⟩

theorem push {statement : Statement} (h : ∀ line, statement.render = .ok line → Allowed line) :
    Maintains (Orderly Allowed settings environment)
      (Session.onLive (Attempt.onSecond (Journal.push statement))) := by
  refine onLive fun builtin journal hcontent hpending => ?_
  rw [Journal.push]
  cases hrender : statement.render with
  | error e => exact ⟨rfl, hcontent, hpending⟩
  | ok line =>
    refine ⟨rfl, hcontent, fun other hother => ?_⟩
    rcases List.mem_append.1 hother with hother | hother
    · exact hpending other hother
    · rw [List.mem_singleton.1 hother]
      exact h line hrender

theorem expandText (s : Text) (mode : Mode) :
    Maintains (Orderly Allowed settings environment) (Session.expandText s mode) :=
  maintains_expandText flush (ask _)

theorem expand (w : Word) (mode : Mode) :
    Maintains (Orderly Allowed settings environment) (Session.expand w mode) :=
  (Maintains.ofExcept _).bind fun s => expandText s mode

theorem enterScope : Maintains (Orderly Allowed settings environment) Session.enterScope :=
  maintains_enterScope flush (ask _)

theorem leaveScope : Maintains (Orderly Allowed settings environment) Session.leaveScope := by
  have hdiscard : Maintains (Orderly Allowed settings environment)
      (Session.onLive (Attempt.onSecond (modify Journal.discard))) :=
    onLive fun _ _ hcontent _ => ⟨rfl, hcontent, fun _ h => nomatch h⟩
  exact maintains_leaveScope hdiscard (ask _)

theorem loadEnvironment :
    Maintains (Orderly (fun _ => True) settings environment) Session.loadEnvironment :=
  maintains_loadEnvironment (fun x => ask x) (fun _ => push fun _ _ => trivial) flush

/-! ## Closing and starting -/

/-- An orderly session that is closed is like new. -/
theorem eq_new (h : session.Orderly Allowed settings environment) (hclosed : session.live = none) :
    session = new settings environment session.host := by
  obtain ⟨_, _, host, live, _, _⟩ := session
  obtain ⟨rfl, rfl, harchive, hfiles, -, -⟩ := h
  cases hclosed
  cases harchive
  cases hfiles
  rfl

theorem of_new : (new settings environment host).Orderly Allowed settings environment :=
  ⟨rfl, rfl, rfl, rfl, (fun _ _ h => nomatch h), fun _ h => nomatch h⟩

/-- Closing an orderly session succeeds and leaves nothing of its oracle and its journal. -/
theorem outcome_close (h : session.Orderly Allowed settings environment) :
    close.outcome session = (.ok (), new settings environment session.host) := by
  rw [Session.close, Attempt.outcome_bind_ok Attempt.outcome_get]
  rcases hlive : session.live with _ | ⟨builtin, journal⟩
  · exact congrArg (Except.ok (), ·) (h.eq_new hlive)
  · have hfiles := h.journalFiles
    rw [journal?, hlive] at hfiles
    have hclosed : Orderly Allowed settings environment
        { session with
          live := none
          archive := session.archive ++ Connected.transcript builtin
          journalFiles := session.journalFiles.erase journal.path } := by
      refine ⟨h.settings, h.environment, ?_, ?_, (fun _ _ h => nomatch h), fun _ h => nomatch h⟩
      · rw [h.archive]
        rfl
      · rw [hfiles]
        exact List.erase_cons_head journal.path []
    exact congrArg (Except.ok (), ·) (hclosed.eq_new rfl)

theorem close : Maintains (Orderly Allowed settings environment) Session.close := by
  intro session h
  rw [h.outcome_close]
  exact of_new

/-- However a session is started, it is orderly. -/
theorem start? (settings : OracleSettings) (environment : Environment) (host : Host) :
    (Session.start? settings environment host).2.Orderly Allowed settings environment := by
  rcases hcheck : checkOptions environment.options with e | ⟨⟩
  · rw [start?_of_checkOptions hcheck]
    exact of_new
  cases hdirectory :
    host.hasDirectory ((settings.directory? host.home).getD host.temporaryDirectory) with
  | false =>
    rw [start?_of_not_hasDirectory hcheck hdirectory]
    exact of_new
  | true =>
    have hconnected : (connected settings environment host).Orderly (fun _ => True) settings
        environment := ⟨rfl, rfl, rfl, rfl, by rintro _ _ ⟨⟩; rfl, fun _ _ => trivial⟩
    have hloaded := loadEnvironment hconnected
    have hstart := start?_eq hcheck hdirectory
    rcases hload : Session.loadEnvironment.outcome (connected settings environment host)
      with ⟨e | ⟨⟩, session⟩
    · rw [hload] at hloaded hstart
      have hclose : (Session.start? settings environment host).2 =
          (Session.close.outcome session).2 := by
        rw [hstart]
        rfl
      rw [hclose, hloaded.outcome_close]
      exact of_new
    · rw [hload] at hloaded hstart
      obtain ⟨-, _, -, journal, hlive, hpending⟩ := start?_settled hstart
      rw [hstart]
      refine { hloaded with pending := ?_ }
      rw [Session.pending, hlive]
      simp only [hpending]
      exact fun _ h => nomatch h

/-- Starting a session anew is starting a session. -/
theorem outcome_reopen (h : session.Orderly Allowed settings environment) :
    Session.reopen.outcome session = Session.start? settings environment session.host := by
  rw [Session.reopen, Attempt.outcome_bind_ok (Attempt.outcome_observe _ _), h.outcome_close]
  rfl

theorem reopen : Maintains (Orderly Allowed settings environment) Session.reopen := by
  intro session h
  rw [h.outcome_reopen]
  exact start? settings environment session.host

end Orderly

/-! ## Clients -/

/-- The line assigns to a variable, as it is written. -/
def IsAssignment (line : Text) : Prop :=
  ∃ name value, Text.isName name = true ∧ (Statement.assign name value).render = .ok line

namespace Orderly

open Attempt (Maintains)

variable {settings : OracleSettings} {environment : Environment}

theorem recordAssignment (name value : Text) :
    Maintains (Orderly IsAssignment settings environment)
      (Session.recordAssignment name value) := by
  have hpush : Maintains (Orderly IsAssignment settings environment)
      (Session.onLive (Attempt.onSecond (Journal.push (.assign name value)))) := by
    refine push fun line hline => ⟨name, value, ?_, hline⟩
    exact (Statement.isOk_render_assign.1 (isOk_iff.2 ⟨line, hline⟩)).1
  exact maintains_recordAssignment hpush

theorem operation {α : Type} (operation : Operation α) :
    Maintains (Orderly IsAssignment settings environment) operation.attempt := by
  cases operation with
  | expandText s mode => exact expandText s mode
  | expand w mode => exact expand w mode
  | recordAssignment name value => exact recordAssignment name value
  | resolve node => exact maintains_resolve expandText recordAssignment enterScope leaveScope node
  | resolveOrKeep node =>
    exact maintains_resolveOrKeep expandText recordAssignment enterScope leaveScope node
  | close => exact close
  | reopen => exact reopen
  | move host => exact fun session h => { h with }

end Orderly

end Session

end ShellFold
