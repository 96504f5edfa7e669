import ShellFold.Proofs.Session.Program

/-!
# Sessions seen through a map of oracles

An oracle may hold more than another and still do the same, such as one that remembers what it is
asked. `Oracle.Extends f` says so of all that a program has an oracle do: seen through `f`, it is
what the other does. Programs then do the same on sessions with either (`Program.projects`).
-/

set_option autoImplicit false

namespace ShellFold

/-! ## Attempts -/

namespace Attempt

variable {σ τ α β : Type} {f : τ → σ}

/-- Seen through `f`, the attempt `y` does what `x` does. -/
def Projects (f : τ → σ) (y : Attempt τ α) (x : Attempt σ α) : Prop :=
  ∀ t, ((y.outcome t).1, f (y.outcome t).2) = x.outcome (f t)

namespace Projects

variable {y y' : Attempt τ α} {x x' : Attempt σ α}

theorem pure (a : α) : Projects f (Pure.pure a) (Pure.pure a) := fun _ => rfl

theorem throw (e : Failure) : Projects (α := α) f (MonadExcept.throw e) (MonadExcept.throw e) :=
  fun _ => rfl

theorem bind {k : α → Attempt τ β} {l : α → Attempt σ β} (h : Projects f y x)
    (hk : ∀ a, Projects f (k a) (l a)) : Projects f (y >>= k) (x >>= l) := by
  intro t
  rw [outcome_bind, outcome_bind, ← h t]
  rcases y.outcome t with ⟨e | a, u⟩
  · rfl
  · exact hk a u

theorem observe (h : Projects f y x) : Projects f y.observe x.observe := by
  intro t
  rw [outcome_observe, outcome_observe, ← h t]

theorem ite {c : Prop} [Decidable c] (h : Projects f y x) (h' : Projects f y' x') :
    Projects f (if c then y else y') (if c then x else x') := by
  split
  · exact h
  · exact h'

theorem onFirst {γ : Type} (h : Projects f y x) :
    Projects (Prod.map f id) (y.onFirst (τ := γ)) x.onFirst := by
  rintro ⟨t, c⟩
  have ht := h t
  rw [Prod.ext_iff] at ht
  exact Prod.ext ht.1 (Prod.ext ht.2 rfl)

theorem onSecond {γ : Type} (z : Attempt γ α) :
    Projects (Prod.map f id) z.onSecond z.onSecond :=
  fun _ => rfl

end Projects

end Attempt

open Attempt (Projects)

/-- Seen through `f`, the one oracle does what the other does when words are expanded, statements
handed over and contexts begun and ended. -/
structure Oracle.Extends {σ τ : Type} [Oracle σ] [Oracle τ] (f : τ → σ) : Prop where
  expand : ∀ s mode, Attempt.Projects f (Oracle.expand s mode) (Oracle.expand s mode)
  source : ∀ script, Attempt.Projects f (Oracle.source script) (Oracle.source script)
  enterScope : Attempt.Projects f Oracle.enterScope Oracle.enterScope
  leaveScope : Attempt.Projects f Oracle.leaveScope Oracle.leaveScope
  acceptsAssignments : ∀ t, Oracle.acceptsAssignments (f t) = Oracle.acceptsAssignments t

namespace Session

/-! ## Sessions -/

section

variable {σ τ α : Type}

/-- The session with its oracle replaced. -/
def mapOracle (f : σ → τ) (session : Session σ) : Session τ where
  settings := session.settings
  environment := session.environment
  host := session.host
  live := session.live.map fun (oracle, journal) => (f oracle, journal)
  archive := session.archive
  journalFiles := session.journalFiles

/-- What is put around an oracle and taken off again leaves the session as it was. -/
theorem mapOracle_leftInverse {f : σ → τ} {g : τ → σ} (h : Function.LeftInverse g f) :
    Function.LeftInverse (mapOracle g) (mapOracle f) := by
  rintro ⟨_, _, _, live, _, _⟩
  rcases live with _ | ⟨oracle, journal⟩
  · rfl
  · simp [mapOracle, h oracle]

variable {f : τ → σ}

/-- An attempt on what an open session has. -/
theorem projects_onLive {y : Attempt (τ × Journal) α} {x : Attempt (σ × Journal) α}
    (h : Projects (Prod.map f id) y x) : Projects (mapOracle f) (onLive y) (onLive x) := by
  rintro ⟨settings, environment, host, live, archive, journalFiles⟩
  rcases live with _ | ⟨oracle, journal⟩
  · rfl
  · simp only [onLive, Attempt.outcome_ofOutcome, mapOracle, Option.map_some]
    have hlive : x.outcome (f oracle, journal) = _ := (h (oracle, journal)).symm
    rw [hlive]
    rfl

theorem projects_ask {y : Attempt τ α} {x : Attempt σ α} (h : Projects f y x) :
    Projects (mapOracle f) (ask y) (ask x) := projects_onLive h.onFirst

theorem projects_onJournal (z : Attempt Journal α) :
    Projects (mapOracle f) (onLive (Attempt.onSecond z)) (onLive (Attempt.onSecond z)) :=
  projects_onLive (.onSecond z)

end

section

variable {σ τ α : Type} [Oracle σ] [Oracle τ] {f : τ → σ} (hf : Oracle.Extends f)
include hf

theorem projects_flush : Projects (mapOracle f) flush flush := by
  refine projects_onLive fun ⟨oracle, journal⟩ => ?_
  simp only [Journal.flush, Attempt.outcome_ofOutcome, Prod.map, id]
  rw [← hf.source]
  split <;> rfl

theorem projects_expandText (s : Text) (mode : Mode) :
    Projects (mapOracle f) (expandText s mode) (expandText s mode) := by
  refine (projects_flush hf).bind fun _ => (projects_ask (hf.expand s mode)).bind fun fields => ?_
  exact .ite ((Projects.throw _).bind fun _ => .pure _) (.pure _)

theorem acceptsAssignments_mapOracle (session : Session τ) :
    (session.mapOracle f).acceptsAssignments = session.acceptsAssignments := by
  obtain ⟨_, _, _, live, _, _⟩ := session
  rcases live with _ | ⟨oracle, journal⟩
  · rfl
  · exact hf.acceptsAssignments oracle

theorem projects_accepting {k : Session τ → Attempt (Session τ) α}
    {l : Session σ → Attempt (Session σ) α}
    (h : ∀ s t, s.acceptsAssignments = t.acceptsAssignments →
      Projects (mapOracle f) (k t) (l s)) :
    Projects (mapOracle f) (get >>= k) (get >>= l) :=
  fun session => h _ session (acceptsAssignments_mapOracle hf session) session

theorem projects_recordAssignment (name value : Text) :
    Projects (mapOracle f) (recordAssignment name value) (recordAssignment name value) := by
  have hpush := projects_onJournal (f := f) (Journal.push (.assign name value))
  refine projects_accepting hf fun s t haccepts => ?_
  rw [haccepts]
  exact .ite ((Projects.throw _).bind fun _ => hpush) hpush

theorem projects_enterScope : Projects (mapOracle f) enterScope enterScope :=
  (projects_flush hf).bind fun _ => projects_ask hf.enterScope

theorem projects_leaveScope : Projects (mapOracle f) leaveScope leaveScope :=
  (projects_onJournal _).bind fun _ => projects_ask hf.leaveScope

theorem projects_inScope {y : Attempt (Session τ) α} {x : Attempt (Session σ) α}
    (h : Projects (mapOracle f) y x) : Projects (mapOracle f) (inScope y) (inScope x) := by
  refine (projects_enterScope hf).bind fun _ => h.observe.bind fun result => ?_
  refine (projects_leaveScope hf).observe.bind fun left => ?_
  match result, left with
  | .error e, _ => exact .throw e
  | .ok _, .error e => exact .throw e
  | .ok a, .ok () => exact .pure a

end

/-! ## Programs -/

/-- **A program does the same on an oracle that holds more.** -/
theorem Program.projects {σ τ α : Type} [Oracle σ] [Oracle τ] {f : τ → σ}
    {Probes : Text → Mode → Prop} {Records : Text → Prop} {x : Attempt (Session σ) α}
    {y : Attempt (Session τ) α} (h : Program Probes Records x y) (hf : Oracle.Extends f) :
    Projects (mapOracle f) y x := by
  induction h with
  | pure a => exact .pure a
  | throw e => exact .throw e
  | bind _ _ hx hk => exact hx.bind hk
  | accepting _ ih => exact projects_accepting hf ih
  | expandText _ => exact projects_expandText hf _ _
  | recordAssignment value _ => exact projects_recordAssignment hf _ value
  | inScope _ ih => exact projects_inScope hf ih

end Session

end ShellFold
