import ShellFold.Proofs.Expansion.Literal
import ShellFold.Session

/-!
# Settled sessions

A session is `Settled` on an oracle without an interpreter when it is open and nothing is pending.
A flush leaves every session that it succeeds on settled (`settled_of_flush`), and a settled
session answers from its scope and stays as it is (`Settled.expandText`).
-/

set_option autoImplicit false

namespace ShellFold

/-- Where fields are not split there is exactly one. -/
theorem Scope.length_expand {scope : Scope} {mode : Mode} {s : Text} {fields : List Text}
    (h : scope.expand mode s = .ok fields) (hmode : mode ≠ .split) : fields.length = 1 := by
  obtain ⟨last, -, h⟩ := bind_eq_ok.1 h
  have hsplits : mode.splits = false := by simp [Mode.splits, hmode]
  cases h
  rw [hsplits]
  rfl

namespace Session

section

variable {σ α : Type} {session : Session σ}

theorem outcome_onLive_some {live : σ × Journal} (h : session.live = some live)
    (x : Attempt (σ × Journal) α) :
    (onLive x).outcome session =
      ((x.outcome live).1, { session with live := some (x.outcome live).2 }) := by
  simp only [onLive, Attempt.outcome_ofOutcome, h]

theorem outcome_onLive_none (h : session.live = none) (x : Attempt (σ × Journal) α) :
    (onLive x).outcome session = (.error (.early .sessionClosed), session) := by
  simp only [onLive, Attempt.outcome_ofOutcome, h]

end

/-- The session is open on the oracle, and nothing is pending. -/
def Settled (session : Session Builtin) (builtin : Builtin) : Prop :=
  ∃ journal : Journal, session.live = some (builtin, journal) ∧ journal.pending = []

variable {session after : Session Builtin} {builtin : Builtin}

namespace Settled

theorem flush (h : session.Settled builtin) :
    Session.flush.outcome session = (.ok (), session) := by
  obtain ⟨journal, hlive, hpending⟩ := h
  rw [Session.flush, outcome_onLive_some hlive, Journal.flush]
  simp only [Attempt.outcome_ofOutcome, if_pos hpending, ← hlive]

theorem expandText (h : session.Settled builtin) (s : Text) (mode : Mode) :
    (Session.expandText s mode).outcome session = (builtin.scope.expand mode s, session) := by
  have hask : (ask (Oracle.expand s mode)).outcome session =
      (builtin.scope.expand mode s, session) := by
    obtain ⟨journal, hlive, -⟩ := h
    rw [ask, outcome_onLive_some hlive]
    show (_, { session with live := some (builtin, journal) }) = _
    rw [← hlive]
    rfl
  rw [Session.expandText, Attempt.outcome_bind_ok h.flush]
  rcases hexpand : builtin.scope.expand mode s with e | fields
  · rw [hexpand] at hask
    exact Attempt.outcome_bind_error hask
  · rw [hexpand] at hask
    rw [Attempt.outcome_bind_ok hask, if_neg fun hc => hc.2 (Scope.length_expand hexpand hc.1)]
    rfl

theorem expand (h : session.Settled builtin) (w : Word) (mode : Mode) :
    (Session.expand w mode).outcome session = (builtin.scope.expandWord mode w, session) := by
  show (Attempt.ofExcept (w.sourceIn mode) >>=
    fun source => Session.expandText source mode).outcome session =
    (w.sourceIn mode >>= builtin.scope.expand mode, session)
  rw [Attempt.outcome_bind, Attempt.outcome_ofExcept]
  rcases w.sourceIn mode with e | source
  · rfl
  · exact h.expandText source mode

end Settled

/-- A flush that succeeds leaves nothing pending. -/
theorem settled_of_flush (h : Session.flush.outcome session = (.ok (), after)) :
    ∃ builtin, after.Settled builtin := by
  rcases hlive : session.live with _ | ⟨oracle, journal⟩
  · rw [Session.flush, outcome_onLive_none hlive] at h
    cases h
  · rw [Session.flush, outcome_onLive_some hlive, Prod.mk.injEq] at h
    obtain ⟨-, rfl⟩ := h
    simp only [Journal.flush, Attempt.outcome_ofOutcome]
    split
    · next hp => exact ⟨oracle, journal, rfl, hp⟩
    · exact ⟨_, _, rfl, rfl⟩

theorem outcome_expand {w : Word} {source : Text} (h : w.sourceText = .ok source) {mode : Mode}
    (hmode : mode ≠ .heredoc) (session : Session Builtin) :
    (Session.expand w mode).outcome session = (expandText source mode).outcome session := by
  rw [Session.expand, if_neg hmode, h]
  exact Attempt.outcome_bind_ok rfl

/-- What a session answers once its pending statements have been handed over. -/
theorem Settled.outcome_expandText_of_flush (h : after.Settled builtin)
    (hflush : Session.flush.outcome session = (.ok (), after)) (s : Text) (mode : Mode) :
    (Session.expandText s mode).outcome session = (builtin.scope.expand mode s, after) := by
  have hagain := h.expandText s mode
  rw [Session.expandText, Attempt.outcome_bind_ok h.flush] at hagain
  rw [Session.expandText, Attempt.outcome_bind_ok hflush, hagain]

/-- What a session answers: the pending statements are handed over, and then its scope decides. -/
theorem outcome_expandText_eq_ok {s : Text} {mode : Mode} {fields : List Text} :
    (expandText s mode).outcome session = (.ok fields, after) ↔
      Session.flush.outcome session = (.ok (), after) ∧
        ∃ builtin, after.Settled builtin ∧ builtin.scope.expand mode s = .ok fields := by
  constructor
  · intro h
    obtain ⟨⟨⟩, mid, hflush, -⟩ := Attempt.outcome_bind_eq_ok.1 h
    obtain ⟨builtin, hsettled⟩ := settled_of_flush hflush
    rw [hsettled.outcome_expandText_of_flush hflush, Prod.mk.injEq] at h
    obtain ⟨hexpand, rfl⟩ := h
    exact ⟨hflush, builtin, hsettled, hexpand⟩
  · rintro ⟨hflush, builtin, hsettled, hexpand⟩
    rw [hsettled.outcome_expandText_of_flush hflush, hexpand]

/-! ## Contexts -/

/-- A context begins: the scope is saved. -/
theorem outcome_enterScope {journal : Journal} (hlive : session.live = some (builtin, journal))
    (hpending : journal.pending = []) :
    enterScope.outcome session =
      (.ok (), { session with
        live := some ({ builtin with saved := builtin.scope :: builtin.saved }, journal) }) := by
  have hsettled : session.Settled builtin := ⟨journal, hlive, hpending⟩
  rw [enterScope, Attempt.outcome_bind_ok hsettled.flush, ask, outcome_onLive_some hlive]
  rfl

/-- A context ends: the scope saved last is taken back, and nothing is pending. -/
theorem outcome_leaveScope {journal : Journal} {scope last : Scope} {saved : List Scope}
    (hlive : session.live = some ({ scope := last, saved := scope :: saved }, journal)) :
    leaveScope.outcome session =
      (.ok (), { session with live := some ({ scope, saved }, journal.discard) }) := by
  have hdiscard : (onLive (Attempt.onSecond (modify Journal.discard))).outcome session =
      (.ok (), { session with
        live := some ({ scope := last, saved := scope :: saved }, journal.discard) }) := by
    rw [outcome_onLive_some hlive]
    rfl
  rw [leaveScope, Attempt.outcome_bind_ok hdiscard, ask, outcome_onLive_some rfl]
  rfl

section

variable {α : Type} {body : Attempt (Session Builtin) α} {inner : Session Builtin}

/-- An attempt in a context of its own, which has ended all contexts it has begun. -/
theorem outcome_inScope {result : Except Failure α} {journal : Journal} {scope last : Scope}
    {saved : List Scope} (henter : enterScope.outcome session = (.ok (), inner))
    (hbody : body.outcome inner = (result, after))
    (hlive : after.live = some ({ scope := last, saved := scope :: saved }, journal)) :
    (inScope body).outcome session =
      (result, { after with live := some ({ scope, saved }, journal.discard) }) := by
  have hobserve : body.observe.outcome inner = (.ok result, after) := by
    simp only [Attempt.observe, Attempt.outcome_ofOutcome, hbody]
  have hleave : leaveScope.observe.outcome after =
      (.ok (.ok ()), { after with live := some ({ scope, saved }, journal.discard) }) := by
    simp only [Attempt.observe, Attempt.outcome_ofOutcome, outcome_leaveScope hlive]
  rw [inScope, Attempt.outcome_bind_ok henter, Attempt.outcome_bind_ok hobserve,
    Attempt.outcome_bind_ok hleave]
  cases result with
  | error e => rfl
  | ok a => rfl

/-- A failure in a context is what the whole fails with. -/
theorem outcome_inScope_error {e : Failure} (henter : enterScope.outcome session = (.ok (), inner))
    (hbody : (body.outcome inner).1 = .error e) :
    ((inScope body).outcome session).1 = .error e := by
  have hobserve : body.observe.outcome inner = (.ok (.error e), (body.outcome inner).2) := by
    simp only [Attempt.observe, Attempt.outcome_ofOutcome, hbody]
  have hleave : leaveScope.observe.outcome (body.outcome inner).2 =
      (.ok (leaveScope.outcome (body.outcome inner).2).1,
        (leaveScope.outcome (body.outcome inner).2).2) := rfl
  rw [inScope, Attempt.outcome_bind_ok henter, Attempt.outcome_bind_ok hobserve,
    Attempt.outcome_bind_ok hleave]
  rfl

/-- An attempt that only looks at the state does so in a context of its own, too. -/
theorem Settled.keeps_inScope {P : α → Prop} (h : session.Settled builtin)
    (hbody : ∀ {inner : Session Builtin} {saved : List Scope},
      inner.Settled { builtin with saved } → Attempt.Keeps inner body P) :
    Attempt.Keeps session (inScope body) P := by
  intro a after hout
  obtain ⟨journal, hlive, hpending⟩ := h
  have henter := outcome_enterScope hlive hpending
  have hinner : Settled { session with
      live := some ({ builtin with saved := builtin.scope :: builtin.saved }, journal) }
      { builtin with saved := builtin.scope :: builtin.saved } := ⟨journal, rfl, hpending⟩
  rcases hresult : body.outcome { session with
    live := some ({ builtin with saved := builtin.scope :: builtin.saved }, journal) }
    with ⟨e | b, last⟩
  · have hfails := outcome_inScope_error henter (congrArg Prod.fst hresult)
    rw [hout] at hfails
    cases hfails
  · obtain ⟨rfl, hP⟩ := hbody hinner hresult
    rw [outcome_inScope henter hresult rfl, Prod.mk.injEq] at hout
    obtain ⟨hvalue, rfl⟩ := hout
    cases hvalue
    refine ⟨?_, hP⟩
    have hdiscard : journal.discard = journal := by rw [Journal.discard, ← hpending]
    show { session with live := some (builtin, journal.discard) } = session
    rw [hdiscard, ← hlive]

end

end Session

end ShellFold
