import ShellFold.Proofs.Resolve.Positions
import ShellFold.Proofs.Session.Settled

/-!
# Contexts leave no trace

A session's state is in three places: the statements that are pending, the scope of the oracle, and
the scopes that the oracle has saved. Nothing that is done in a context touches the saved scopes,
for every context begun there is also ended (`Session.Within` is the invariant). So the scope that
is taken back at the end of a context is the one that was saved at its begin
(`outcome_inScope_of_balanced`), whatever happened in between (`inScope_restores`).
-/

set_option autoImplicit false

namespace ShellFold

namespace Session

variable {α β : Type}

/-- The session is `base`, but for the scope of its oracle and its journal; its oracle has saved the
given scopes. -/
def Within (base : Session Builtin) (saved : List Scope) (session : Session Builtin) : Prop :=
  ∃ builtin journal, session = { base with live := some (builtin, journal) } ∧
    builtin.saved = saved

/-- Whatever scopes the oracle has saved, the attempt leaves them as they are. -/
def Balanced (x : Attempt (Session Builtin) α) : Prop :=
  ∀ base saved, Attempt.Maintains (Within base saved) x

namespace Balanced

theorem pure (a : α) : Balanced (Pure.pure a) := fun _ _ => .pure a

theorem throw (e : Failure) : Balanced (α := α) (MonadExcept.throw e) := fun _ _ => .throw e

theorem get : Balanced MonadState.get := fun _ _ => .get

variable {x x' : Attempt (Session Builtin) α}

theorem bind {f : α → Attempt (Session Builtin) β} (hx : Balanced x) (hf : ∀ a, Balanced (f a)) :
    Balanced (x >>= f) := fun base saved => (hx base saved).bind fun a => hf a base saved

theorem ite {c : Prop} [Decidable c] (h : Balanced x) (h' : Balanced x') :
    Balanced (if c then x else x') := fun base saved => (h base saved).ite (h' base saved)

theorem observe (h : Balanced x) : Balanced x.observe := fun base saved => (h base saved).observe

/-! ## Steps -/

theorem onLive {x : Attempt (Builtin × Journal) α}
    (h : ∀ builtin journal, (x.outcome (builtin, journal)).2.1.saved = builtin.saved) :
    Balanced (Session.onLive x) := by
  rintro base _ _ ⟨builtin, journal, rfl, rfl⟩
  rw [outcome_onLive_some rfl]
  exact ⟨_, _, rfl, h builtin journal⟩

theorem flush : Balanced Session.flush := by
  refine onLive fun builtin journal => ?_
  simp only [Journal.flush, Attempt.outcome_ofOutcome]
  split <;> rfl

theorem expandText (s : Text) (mode : Mode) : Balanced (Session.expandText s mode) := by
  have hask : Balanced (ask (Oracle.expand s mode)) := onLive fun _ _ => rfl
  exact fun base saved => maintains_expandText (flush base saved) (hask base saved)

theorem expand (w : Word) (mode : Mode) : Balanced (Session.expand w mode) := by
  refine bind (fun _ _ _ h => h) fun s => ?_
  exact expandText s mode

theorem recordAssignment (name value : Text) : Balanced (Session.recordAssignment name value) := by
  have hpush : Balanced (Session.onLive (Attempt.onSecond (Journal.push (.assign name value)))) :=
    onLive fun _ _ => rfl
  exact fun base saved => maintains_recordAssignment (hpush base saved)

end Balanced

/-! ## Contexts -/

section

variable {body : Attempt (Session Builtin) α}

/-- A context of a balanced attempt ends with the scope that was saved at its begin. -/
theorem outcome_inScope_of_balanced (hbody : Balanced body) {session flushed : Session Builtin}
    {builtin : Builtin} {journal : Journal} (hflush : flush.outcome session = (.ok (), flushed))
    (hlive : flushed.live = some (builtin, journal)) (hpending : journal.pending = []) :
    let entered : Session Builtin :=
      { flushed with
        live := some ({ builtin with saved := builtin.scope :: builtin.saved }, journal) }
    enterScope.outcome session = (.ok (), entered) ∧
      ∃ last : Journal, last.pending = [] ∧ (inScope body).outcome session =
        ((body.outcome entered).1, { flushed with live := some (builtin, last) }) := by
  intro entered
  have henter : enterScope.outcome session = (.ok (), entered) := by
    have hagain := outcome_enterScope hlive hpending
    rw [enterScope, Attempt.outcome_bind_ok (Settled.flush ⟨journal, hlive, hpending⟩)] at hagain
    rw [enterScope, Attempt.outcome_bind_ok hflush, hagain]
  have hwithin : Within flushed (builtin.scope :: builtin.saved) entered := ⟨_, journal, rfl, rfl⟩
  -- the saved scopes are as they were on entry, so the one taken back is `builtin.scope`
  obtain ⟨⟨last, saved⟩, inner, hinner, rfl⟩ := hbody _ _ hwithin
  have hout : body.outcome entered = ((body.outcome entered).1, { flushed with
      live := some ({ scope := last, saved := builtin.scope :: builtin.saved }, inner) }) := by
    rw [← hinner]
  have hleft := outcome_inScope henter hout rfl
  exact ⟨henter, inner.discard, rfl, hleft⟩

theorem Balanced.inScope (hbody : Balanced body) : Balanced (Session.inScope body) := by
  intro base saved session hwithin
  have hflushed := Balanced.flush base saved hwithin
  rcases hflush : Session.flush.outcome session with ⟨e | ⟨⟩, flushed⟩
  · have henter : enterScope.outcome session = (.error e, flushed) := by
      rw [enterScope, Attempt.outcome_bind_error hflush]
    rw [hflush] at hflushed
    rw [Session.inScope, Attempt.outcome_bind_error henter]
    exact hflushed
  · obtain ⟨builtin, journal, hlive, hpending⟩ := settled_of_flush hflush
    obtain ⟨-, last, -, hout⟩ := outcome_inScope_of_balanced hbody hflush hlive hpending
    rw [hflush] at hflushed
    obtain ⟨_, _, rfl, hsaved⟩ := hflushed
    cases hlive
    rw [hout]
    exact ⟨builtin, last, rfl, hsaved⟩

end

/-! ## Programs -/

/-- A program ends every context that it begins. -/
theorem Program.balanced {Probes : Text → Mode → Prop} {Records : Text → Prop}
    {x y : Attempt (Session Builtin) α} (h : Program Probes Records x y) : Balanced x := by
  induction h with
  | pure a => exact .pure a
  | throw e => exact .throw e
  | bind _ _ hx hf => exact hx.bind hf
  | accepting _ ih => exact Balanced.get.bind fun s => ih s s rfl
  | expandText _ => exact .expandText _ _
  | recordAssignment value _ => exact .recordAssignment _ value
  | inScope _ ih => exact ih.inScope

/-! ## Sequences of steps -/

/-- The attempt is a sequence of steps on a session, in which every next step may depend on what
those before it have given, also where they have failed: words are expanded, assignments recorded,
trees resolved and contexts begun and ended, but the session is neither closed nor started anew. -/
inductive Steps : {α : Type} → Attempt (Session Builtin) α → Prop
  | pure {α : Type} (a : α) : Steps (Pure.pure a)
  | throw {α : Type} (e : Failure) : Steps (α := α) (MonadExcept.throw e)
  | bind {α β : Type} {x : Attempt (Session Builtin) α} {f : α → Attempt (Session Builtin) β} :
      Steps x → (∀ a, Steps (f a)) → Steps (x >>= f)
  | observe {α : Type} {x : Attempt (Session Builtin) α} : Steps x → Steps x.observe
  | recordAssignment (name value : Text) : Steps (recordAssignment name value)
  | expandText (s : Text) (mode : Mode) : Steps (expandText s mode)
  | expand (w : Word) (mode : Mode) : Steps (expand w mode)
  | resolve (node : Node) : Steps node.resolve
  | resolveOrKeep (node : Node) : Steps node.resolveOrKeep
  | inScope {α : Type} {x : Attempt (Session Builtin) α} : Steps x → Steps (inScope x)

theorem balanced_resolve (node : Node) : Balanced node.resolve := node.program_resolve.balanced

theorem balanced_resolveOrKeep (node : Node) : Balanced node.resolveOrKeep := by
  refine (balanced_resolve node).observe.bind fun result => ?_
  cases result with
  | ok resolved => exact .pure _
  | error e => exact .ite (.pure _) (.throw e)

theorem Steps.balanced {x : Attempt (Session Builtin) α} (h : Steps x) : Balanced x := by
  induction h with
  | pure a => exact .pure a
  | throw e => exact .throw e
  | bind _ _ hx hf => exact hx.bind hf
  | observe _ ih => exact ih.observe
  | recordAssignment name value => exact .recordAssignment name value
  | expandText s mode => exact .expandText s mode
  | expand w mode => exact .expand w mode
  | resolve node => exact balanced_resolve node
  | resolveOrKeep node => exact balanced_resolveOrKeep node
  | inScope _ ih => exact ih.inScope

/-- **A context leaves no trace.** Once what was pending has been handed over, whatever steps are
taken in a context, and at whichever of them they fail, the session is afterwards as it was before
the context: the variables, the positional parameters and the saved scopes are the same, and nothing
is pending. The result is that of the steps. -/
theorem inScope_restores {body : Attempt (Session Builtin) α} (hbody : Steps body)
    {session flushed : Session Builtin} (hflush : flush.outcome session = (.ok (), flushed)) :
    ∃ (builtin : Builtin) (entered after : Session Builtin), flushed.Settled builtin ∧
      enterScope.outcome session = (.ok (), entered) ∧
      entered.Settled { builtin with saved := builtin.scope :: builtin.saved } ∧
      (inScope body).outcome session = ((body.outcome entered).1, after) ∧
      after.Settled builtin ∧ after = { flushed with live := after.live } := by
  obtain ⟨builtin, journal, hlive, hpending⟩ := settled_of_flush hflush
  obtain ⟨henter, last, hlast, hout⟩ :=
    outcome_inScope_of_balanced hbody.balanced hflush hlive hpending
  exact ⟨builtin, _, _, ⟨journal, hlive, hpending⟩, henter, ⟨journal, rfl, hpending⟩, hout,
    ⟨last, rfl, hlast⟩, rfl⟩

/-- A context that assigns, begins another, resolves a tree and then fails. -/
theorem inScope_restores_of_failure :
    let assign (value : String) : Node :=
      .command ⟨none, [⟨"x".toList, .ofText value.toList⟩], [], []⟩
    let body : Attempt (Session Builtin) (List Text) := do
      Session.recordAssignment "x".toList "inner".toList
      let _ ← (Session.inScope (Session.recordAssignment "y".toList "2".toList)).observe
      let _ ← (Node.sequence (assign "$x$x") (.subshell (assign "3") [])).resolve
      Session.expand (.ofText "$$".toList) .noSplit
    let closed : Session Builtin :=
      { settings := {}, environment := {}
        host := { hasDirectory := fun _ => true, fileText := fun _ => none } }
    let session : Session Builtin :=
      { closed with live := some ({}, { path := [], pending := ["x=1".toList] }) }
    let flushed : Session Builtin :=
      { closed with live := some (
        { scope := { vars := Variables.ofList [("x".toList, { value := "1".toList })] } },
        { path := [] }) }
    (Steps body ∧ flush.outcome session = (.ok (), flushed)) ∧
      ∃ (builtin : Builtin) (entered after : Session Builtin), flushed.Settled builtin ∧
        enterScope.outcome session = (.ok (), entered) ∧
        entered.Settled { builtin with saved := builtin.scope :: builtin.saved } ∧
        (inScope body).outcome session = ((body.outcome entered).1, after) ∧
        after.Settled builtin ∧ after = { flushed with live := after.live } := by
  intro assign body closed session flushed
  have hbody : Steps body := by
    refine .bind (.recordAssignment _ _) fun _ => ?_
    refine .bind (.observe (.inScope (.recordAssignment _ _))) fun _ => ?_
    exact .bind (.resolve _) fun _ => .expand _ _
  have hflush : flush.outcome session = (.ok (), flushed) := rfl
  exact ⟨⟨hbody, hflush⟩, inScope_restores hbody hflush⟩

end Session

end ShellFold
