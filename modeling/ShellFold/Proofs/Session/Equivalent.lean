import ShellFold.Proofs.Session.Context

/-!
# Sessions that answer alike

What a session answers depends on the state that a flush leaves its oracle in. Sessions are
`Equivalent` when they are the same or a flush takes them to the same state of the oracle, and an
attempt is `Congruent` when equivalent sessions give it the same result. Expanding words is, and so
is all that looks at a session in this way only. A program that assigns nothing outside of contexts
ends in a session equivalent to the one it began in (`Program.equivalent`).
-/

set_option autoImplicit false

namespace ShellFold

/-- What is done without looking at the state adds nothing to it. -/
theorem Attempt.outcome_bind_ofExcept {σ α β : Type} (x : Attempt σ α) (f : α → Except Failure β)
    (s : σ) : ((x >>= fun a => ofExcept (f a)).outcome s).1 = (x.outcome s).1 >>= f := by
  rw [outcome_bind]
  rcases x.outcome s with ⟨e | a, t⟩ <;> rfl

namespace Session

/-- A flush succeeds and leaves the oracle in the given state. -/
def FlushesTo (session : Session Builtin) (builtin : Builtin) : Prop :=
  ∃ flushed : Session Builtin, flush.outcome session = (.ok (), flushed) ∧ flushed.Settled builtin

variable {session s t u : Session Builtin} {builtin : Builtin}

theorem Settled.flushesTo (h : session.Settled builtin) : session.FlushesTo builtin :=
  ⟨session, h.flush, h⟩

theorem FlushesTo.outcome_expandText (h : session.FlushesTo builtin) (source : Text) (mode : Mode) :
    ((expandText source mode).outcome session).1 = builtin.scope.expand mode source := by
  obtain ⟨flushed, hflush, hsettled⟩ := h
  rw [hsettled.outcome_expandText_of_flush hflush]

theorem FlushesTo.unique {builtin' : Builtin} (h : session.FlushesTo builtin)
    (h' : session.FlushesTo builtin') : builtin = builtin' := by
  obtain ⟨flushed, hflush, journal, hlive, -⟩ := h
  obtain ⟨flushed', hflush', journal', hlive', -⟩ := h'
  rw [hflush, Prod.mk.injEq] at hflush'
  obtain ⟨-, rfl⟩ := hflush'
  rw [hlive, Option.some.injEq, Prod.mk.injEq] at hlive'
  exact hlive'.1

/-- The sessions are the same, or a flush takes both to the same state of the oracle. -/
def Equivalent (s t : Session Builtin) : Prop :=
  s = t ∨ ∃ builtin, s.FlushesTo builtin ∧ t.FlushesTo builtin

namespace Equivalent

theorem refl (s : Session Builtin) : Equivalent s s := .inl rfl

theorem symm (h : Equivalent s t) : Equivalent t s := by
  obtain rfl | ⟨builtin, hs, ht⟩ := h
  · exact .refl s
  · exact .inr ⟨builtin, ht, hs⟩

theorem trans (h : Equivalent s t) (h' : Equivalent t u) : Equivalent s u := by
  obtain rfl | ⟨builtin, hs, ht⟩ := h
  · exact h'
  obtain rfl | ⟨builtin', ht', hu⟩ := h'
  · exact .inr ⟨builtin, hs, ht⟩
  · cases ht.unique ht'
    exact .inr ⟨builtin, hs, hu⟩

end Equivalent

/-! ## Attempts that only ask -/

section

variable {α β : Type}

/-- Equivalent sessions give the attempt the same result. -/
def Congruent (x : Attempt (Session Builtin) α) : Prop :=
  ∀ ⦃s t⦄, Equivalent s t → (x.outcome s).1 = (x.outcome t).1

namespace Congruent

theorem ofExcept (result : Except Failure α) : Congruent (Attempt.ofExcept result) :=
  fun _ _ _ => rfl

theorem ofExcept_bind {result : Except Failure α} {f : α → Attempt (Session Builtin) β}
    (h : ∀ a, Congruent (f a)) : Congruent (Attempt.ofExcept result >>= f) := by
  cases result with
  | error e => exact .ofExcept (.error e)
  | ok a => exact h a

theorem bind_ofExcept {x : Attempt (Session Builtin) α} (h : Congruent x)
    (f : α → Except Failure β) : Congruent (x >>= fun a => Attempt.ofExcept (f a)) := by
  intro s t hst
  rw [Attempt.outcome_bind_ofExcept, Attempt.outcome_bind_ofExcept, h hst]

theorem bind_pure {x : Attempt (Session Builtin) α} (h : Congruent x) (f : α → β) :
    Congruent (x >>= fun a => pure (f a)) := h.bind_ofExcept fun a => .ok (f a)

theorem expandText (source : Text) (mode : Mode) : Congruent (Session.expandText source mode) := by
  rintro s t (rfl | ⟨builtin, hs, ht⟩)
  · rfl
  · rw [hs.outcome_expandText, ht.outcome_expandText]

theorem expand (w : Word) (mode : Mode) : Congruent (Session.expand w mode) :=
  .ofExcept_bind fun source => .expandText source mode

end Congruent

end

/-! ## Programs that assign nothing -/

section

variable {α : Type} {body : Attempt (Session Builtin) α}

/-- A context of a balanced attempt that succeeds leaves what a flush before it would have left. -/
theorem equivalent_of_inScope (hbody : Balanced body) {a : α}
    (h : (inScope body).outcome s = (.ok a, t)) : Equivalent s t := by
  obtain ⟨⟨⟩, _, henter, -⟩ := Attempt.outcome_bind_eq_ok.1 h
  obtain ⟨⟨⟩, flushed, hflush, -⟩ := Attempt.outcome_bind_eq_ok.1 henter
  obtain ⟨builtin, journal, hlive, hpending⟩ := settled_of_flush hflush
  obtain ⟨-, last, hlast, hout⟩ := outcome_inScope_of_balanced hbody hflush hlive hpending
  rw [h, Prod.mk.injEq] at hout
  obtain ⟨-, rfl⟩ := hout
  have hafter : Settled { flushed with live := some (builtin, last) } builtin := ⟨last, rfl, hlast⟩
  exact .inr ⟨builtin, ⟨flushed, hflush, journal, hlive, hpending⟩, hafter.flushesTo⟩

theorem Program.equivalent {Probes : Text → Mode → Prop} {Records : Text → Prop}
    {x y : Attempt (Session Builtin) α} (h : Program Probes Records x y)
    (hrecords : ∀ name, ¬Records name) : ∀ {s t : Session Builtin} {a : α},
    x.outcome s = (.ok a, t) → Equivalent s t := by
  induction h with
  | pure a =>
    rintro s _ _ ⟨⟩
    exact .refl s
  | throw e => rintro _ _ _ ⟨⟩
  | bind _ _ hx hf =>
    intro s t b hout
    obtain ⟨a, mid, hxout, hfout⟩ := Attempt.outcome_bind_eq_ok.1 hout
    exact (hx hrecords hxout).trans (hf a hrecords hfout)
  | accepting _ ih =>
    intro s t a hout
    rw [Attempt.outcome_bind_ok Attempt.outcome_get] at hout
    exact ih s s rfl hrecords hout
  | expandText _ =>
    intro s t fields hout
    obtain ⟨hflush, builtin, hsettled, -⟩ := outcome_expandText_eq_ok.1 hout
    exact .inr ⟨builtin, ⟨t, hflush, hsettled⟩, hsettled.flushesTo⟩
  | recordAssignment value hname => exact (hrecords _ hname).elim
  -- in a context anything may be assigned, so it is not the induction hypothesis that applies
  | inScope hx _ => exact equivalent_of_inScope hx.balanced

end

end Session

end ShellFold
