import ShellFold.Proofs.Expansion.Literal
import ShellFold.Session

/-!
# Programs on sessions

What a client makes of a session is a sequence of expansions, recorded assignments and contexts.
`Session.Program` is the induction principle for such sequences: it relates two attempts that are
built in the same way, on sessions with two kinds of oracle, and bounds the texts that they put to
the oracle and the names that they assign to. What each step of such a sequence maintains, the whole
maintains (`Program.maintains`); `maintains_expandText` and its companions take the steps apart.
-/

set_option autoImplicit false

namespace ShellFold

namespace Session

open Attempt (Maintains)

section

variable {σ τ : Type} [Oracle σ] [Oracle τ]

/-- The two attempts are one program on sessions with two kinds of oracle. It has only texts
expanded that `Probes` allows, and assigns, but for the contexts it begins, only to names that
`Records` allows. -/
inductive Program (Probes : Text → Mode → Prop) : (Records : Text → Prop) → {α : Type} →
    Attempt (Session σ) α → Attempt (Session τ) α → Prop
  | pure {Records : Text → Prop} {α : Type} (a : α) :
      Program Probes Records (Pure.pure a) (Pure.pure a)
  | throw {Records : Text → Prop} {α : Type} (e : Failure) :
      Program (α := α) Probes Records (MonadExcept.throw e) (MonadExcept.throw e)
  | bind {Records : Text → Prop} {α β : Type} {x : Attempt (Session σ) α}
      {y : Attempt (Session τ) α} {f : α → Attempt (Session σ) β} {g : α → Attempt (Session τ) β} :
      Program Probes Records x y → (∀ a, Program Probes Records (f a) (g a)) →
      Program Probes Records (x >>= f) (y >>= g)
  | accepting {Records : Text → Prop} {α : Type} {f : Session σ → Attempt (Session σ) α}
      {g : Session τ → Attempt (Session τ) α} :
      (∀ s t, s.acceptsAssignments = t.acceptsAssignments → Program Probes Records (f s) (g t)) →
      Program Probes Records (get >>= f) (get >>= g)
  | expandText {Records : Text → Prop} {s : Text} {mode : Mode} : Probes s mode →
      Program Probes Records (expandText s mode) (expandText s mode)
  | recordAssignment {Records : Text → Prop} {name : Text} (value : Text) : Records name →
      Program Probes Records (recordAssignment name value) (recordAssignment name value)
  | inScope {Records : Text → Prop} {α : Type} {x : Attempt (Session σ) α}
      {y : Attempt (Session τ) α} : Program Probes (fun _ => True) x y →
      Program Probes Records (inScope x) (inScope y)

namespace Program

variable {Probes : Text → Mode → Prop} {Records : Text → Prop} {α β : Type}

theorem ofExcept (result : Except Failure α) :
    Program (σ := σ) (τ := τ) Probes Records (Attempt.ofExcept result)
      (Attempt.ofExcept result) := by
  cases result with
  | ok a => exact .pure a
  | error e => exact .throw e

/-- A program that goes on with a result may rely on it. -/
theorem ofExcept_bind {result : Except Failure α} {f : α → Attempt (Session σ) β}
    {g : α → Attempt (Session τ) β} (h : ∀ a, result = .ok a → Program Probes Records (f a) (g a)) :
    Program Probes Records (Attempt.ofExcept result >>= f) (Attempt.ofExcept result >>= g) := by
  cases result with
  | ok a =>
    rw [Attempt.ofExcept_ok_bind, Attempt.ofExcept_ok_bind]
    exact h a rfl
  | error e =>
    rw [Attempt.ofExcept_error_bind, Attempt.ofExcept_error_bind]
    exact .throw e

theorem ite {c : Prop} [Decidable c] {x x' : Attempt (Session σ) α} {y y' : Attempt (Session τ) α}
    (h : c → Program Probes Records x y) (h' : ¬c → Program Probes Records x' y') :
    Program Probes Records (if c then x else x') (if c then y else y') := by
  split
  · next hc => exact h hc
  · next hc => exact h' hc

/-- A check that fails on both sides, or on neither. -/
theorem guard {c : Prop} [Decidable c] (e : Failure) {f : β → Attempt (Session σ) α}
    {g : β → Attempt (Session τ) α} {x : Attempt (Session σ) α} {y : Attempt (Session τ) α}
    (h : Program Probes Records x y) :
    Program Probes Records (if c then MonadExcept.throw e >>= f else x)
      (if c then MonadExcept.throw e >>= g else y) := by
  split
  · exact .throw e
  · exact h

theorem expand {w : Word} {mode : Mode} (h : ∀ s, w.sourceIn mode = .ok s → Probes s mode) :
    Program (σ := σ) (τ := τ) Probes Records (expand w mode) (expand w mode) :=
  .ofExcept_bind fun s hs => .expandText (h s hs)

theorem symm {x : Attempt (Session σ) α} {y : Attempt (Session τ) α}
    (h : Program Probes Records x y) : Program Probes Records y x := by
  induction h with
  | pure a => exact .pure a
  | throw e => exact .throw e
  | bind _ _ hx hf => exact .bind hx hf
  | accepting _ ih => exact .accepting fun t s haccepts => ih s t haccepts.symm
  | expandText h => exact .expandText h
  | recordAssignment value h => exact .recordAssignment value h
  | inScope _ ih => exact .inScope ih

/-- A program maintains what its questions, assignments and contexts maintain. It is said for all
`P i` at once, for what a context maintains may follow from what its body does for another `i`. -/
theorem maintains {ι : Type} {P : ι → Session σ → Prop}
    (haccepts : ∀ s : Session σ, ∃ t : Session τ, s.acceptsAssignments = t.acceptsAssignments)
    (hexpand : ∀ s mode, Probes s mode → ∀ i, Maintains (P i) (Session.expandText s mode))
    (hrecord : ∀ name value i, Maintains (P i) (Session.recordAssignment name value))
    (hscope : ∀ {β : Type} {body : Attempt (Session σ) β}, (∀ i, Maintains (P i) body) →
      ∀ i, Maintains (P i) (Session.inScope body))
    {x : Attempt (Session σ) α} {y : Attempt (Session τ) α} (h : Program Probes Records x y) :
    ∀ i, Maintains (P i) x := by
  induction h with
  | pure a => exact fun _ => .pure a
  | throw e => exact fun _ => .throw e
  | bind _ _ hx hf => exact fun i => (hx i).bind fun a => hf a i
  | accepting _ ih =>
    intro i
    refine .bind .get fun s => ?_
    obtain ⟨t, hst⟩ := haccepts s
    exact ih s t hst i
  | expandText h => exact hexpand _ _ h
  | recordAssignment value _ => exact hrecord _ value
  | inScope _ ih => exact hscope ih

end Program

end

/-! ## What operations maintain -/

section

variable {σ : Type} [Oracle σ] {P : Session σ → Prop}

theorem maintains_expandText {s : Text} {mode : Mode} (hflush : Maintains P flush)
    (hask : Maintains P (ask (Oracle.expand s mode))) : Maintains P (expandText s mode) := by
  refine hflush.bind fun _ => hask.bind fun fields => ?_
  exact .ite ((Maintains.throw _).bind fun _ => .pure _) (.pure _)

theorem maintains_recordAssignment {name value : Text}
    (hpush : Maintains P (onLive (Attempt.onSecond (Journal.push (.assign name value))))) :
    Maintains P (recordAssignment name value) :=
  Maintains.get.bind fun _ => .ite ((Maintains.throw _).bind fun _ => hpush) hpush

theorem maintains_enterScope (hflush : Maintains P flush)
    (hask : Maintains P (ask Oracle.enterScope)) : Maintains P enterScope :=
  hflush.bind fun _ => hask

theorem maintains_leaveScope
    (hdiscard : Maintains P (onLive (Attempt.onSecond (modify Journal.discard))))
    (hask : Maintains P (ask Oracle.leaveScope)) : Maintains P leaveScope :=
  hdiscard.bind fun _ => hask

/-- What is maintained by an attempt in a context of its own. Within the context `Q` holds instead,
if the context could be begun. -/
theorem maintains_inScope {α : Type} {Q : Session σ → Prop} {body : Attempt (Session σ) α}
    (henter : ∀ {s entered}, P s → enterScope.outcome s = (.ok (), entered) → Q entered)
    (hrefused : ∀ {s after e}, P s → enterScope.outcome s = (.error e, after) → P after)
    (hleave : ∀ {s}, Q s → P (leaveScope.outcome s).2) (hbody : Maintains Q body) :
    Maintains P (inScope body) := by
  intro s hs
  rcases hout : enterScope.outcome s with ⟨e | ⟨⟩, entered⟩
  · rw [inScope, Attempt.outcome_bind_error hout]
    exact hrefused hs hout
  · have hleft := hleave (hbody (henter hs hout))
    rw [inScope, Attempt.outcome_bind_ok hout,
      Attempt.outcome_bind_ok (Attempt.outcome_observe body entered),
      Attempt.outcome_bind_ok (Attempt.outcome_observe leaveScope _)]
    -- what comes of the body and of the end of the context decides the result only
    split
    · exact hleft
    · exact hleft
    · exact hleft

end

end Session

end ShellFold
