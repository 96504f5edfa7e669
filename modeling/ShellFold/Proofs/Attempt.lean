import ShellFold.Attempt

/-!
# Reading attempts apart

The equations by which a sequence of attempts, or of results without a state, is taken apart
where its first part is known to succeed or to fail; `Attempt.Keeps`, what an attempt that only
looks at the state yields; and `Attempt.Maintains`, what an attempt leaves true of the state even
where it fails.
-/

set_option autoImplicit false

namespace ShellFold

section Except

variable {ε α β : Type}

@[simp] theorem ok_bind (a : α) (f : α → Except ε β) : (Except.ok a >>= f) = f a := rfl

@[simp] theorem error_bind (e : ε) (f : α → Except ε β) :
    (Except.error e >>= f) = .error e := rfl

theorem bind_eq_ok {x : Except ε α} {f : α → Except ε β} {b : β} :
    (x >>= f) = .ok b ↔ ∃ a, x = .ok a ∧ f a = .ok b := by
  cases x <;> simp

/-- What goes on with a value is asked only of the values that there can be. -/
theorem bind_congr_ok {x : Except ε α} {f g : α → Except ε β} (h : ∀ a, x = .ok a → f a = g a) :
    (x >>= f) = (x >>= g) := by
  cases x with
  | error e => rfl
  | ok a => exact h a rfl

theorem bind_isOk {x : Except ε α} {f : α → Except ε β} :
    (x >>= f).isOk = true ↔ ∃ a, x = .ok a ∧ (f a).isOk = true := by
  cases x with
  | error e => simp [Except.isOk, Except.toBool]
  | ok a => simp

theorem isOk_iff {x : Except ε α} : x.isOk = true ↔ ∃ a, x = .ok a := by
  rcases x with e | a <;> simp [Except.isOk, Except.toBool]

end Except

namespace Attempt

variable {σ α β : Type} {x : Attempt σ α} {f : α → Attempt σ β} {s t : σ}

theorem outcome_bind_ok {a : α} (h : x.outcome s = (.ok a, t)) :
    (x >>= f).outcome s = (f a).outcome t := by
  rw [outcome_bind, h]

theorem outcome_bind_error {e : Failure} (h : x.outcome s = (.error e, t)) :
    (x >>= f).outcome s = (.error e, t) := by
  rw [outcome_bind, h]

theorem outcome_get : (get : Attempt σ σ).outcome s = (.ok s, s) := rfl

theorem outcome_observe (x : Attempt σ α) (s : σ) :
    x.observe.outcome s = (.ok (x.outcome s).1, (x.outcome s).2) := rfl

theorem ofExcept_ok_bind (a : α) (f : α → Attempt σ β) : (ofExcept (.ok a) >>= f) = f a := rfl

theorem ofExcept_error_bind (e : Failure) (f : α → Attempt σ β) :
    (ofExcept (.error e) >>= f) = throw e := rfl

/-- What is made of the value afterwards leaves the state as it is. -/
theorem outcome_bind_pure (x : Attempt σ α) (f : α → β) (s : σ) :
    (x >>= fun a => pure (f a)).outcome s = ((x.outcome s).1.map f, (x.outcome s).2) := by
  rw [outcome_bind]
  rcases x.outcome s with ⟨e | a, t⟩ <;> rfl

/-- A sequence of attempts that succeeds: both parts do. -/
theorem outcome_bind_eq_ok {b : β} :
    (x >>= f).outcome s = (.ok b, t) ↔
      ∃ a u, x.outcome s = (.ok a, u) ∧ (f a).outcome u = (.ok b, t) := by
  rw [outcome_bind]
  constructor
  · intro h
    rcases hx : x.outcome s with ⟨e | a, u⟩
    · rw [hx] at h
      cases h
    · rw [hx] at h
      exact ⟨a, u, rfl, h⟩
  · rintro ⟨a, u, hx, hf⟩
    rw [hx]
    exact hf

/-- What stands behind a check succeeds where the check passes. -/
theorem outcome_guard_eq_ok {c : Prop} [Decidable c] {e : Failure} {f : β → Attempt σ α} {a : α} :
    (if c then MonadExcept.throw e >>= f else x).outcome s = (.ok a, t) ↔
      ¬c ∧ x.outcome s = (.ok a, t) := by
  split
  · next hc =>
    constructor
    · intro h
      cases h
    · exact fun h => absurd hc h.1
  · next hc => exact (and_iff_right hc).symm

/-- Where the attempt succeeds it leaves the state as it is, with a value of which `P` holds. -/
def Keeps (s : σ) (x : Attempt σ α) (P : α → Prop) : Prop :=
  ∀ ⦃a t⦄, x.outcome s = (.ok a, t) → t = s ∧ P a

namespace Keeps

variable {P : α → Prop} {Q : β → Prop}

theorem pure {a : α} (h : P a) : Keeps s (Pure.pure a) P := by
  rintro _ _ ⟨⟩
  exact ⟨rfl, h⟩

theorem throw {e : Failure} : Keeps s (MonadExcept.throw e) P := by
  rintro _ _ ⟨⟩

theorem ofExcept {result : Except Failure α} (h : ∀ a, result = .ok a → P a) :
    Keeps s (Attempt.ofExcept result) P := by
  intro a t ht
  rw [outcome_ofExcept, Prod.mk.injEq] at ht
  exact ⟨ht.2.symm, h a ht.1⟩

theorem bind (hx : Keeps s x P) (hf : ∀ a, P a → Keeps s (f a) Q) : Keeps s (x >>= f) Q := by
  intro b t h
  obtain ⟨a, u, ha, hb⟩ := outcome_bind_eq_ok.1 h
  obtain ⟨rfl, hP⟩ := hx ha
  exact hf a hP hb

end Keeps

/-- Where `P` holds of the state, it holds of what the attempt leaves, failed or not. -/
def Maintains (P : σ → Prop) (x : Attempt σ α) : Prop := ∀ ⦃s⦄, P s → P (x.outcome s).2

namespace Maintains

variable {P : σ → Prop} {x' : Attempt σ α}

theorem pure (a : α) : Maintains P (Pure.pure a : Attempt σ α) := fun _ h => h

theorem throw (e : Failure) : Maintains P (MonadExcept.throw e : Attempt σ α) := fun _ h => h

theorem get : Maintains P (MonadState.get : Attempt σ σ) := fun _ h => h

theorem bind (hx : Maintains P x) (hf : ∀ a, Maintains P (f a)) : Maintains P (x >>= f) := by
  intro s h
  have hmid := hx h
  rw [outcome_bind]
  rcases hout : x.outcome s with ⟨e | a, t⟩
  · rw [hout] at hmid
    exact hmid
  · rw [hout] at hmid
    exact hf a hmid

theorem ite {c : Prop} [Decidable c] (h : Maintains P x) (h' : Maintains P x') :
    Maintains P (if c then x else x') := by
  split
  · exact h
  · exact h'

/-- A check that fails leaves the state as it is. -/
theorem guard {c : Prop} [Decidable c] {e : Failure} {f : β → Attempt σ α} (h : Maintains P x) :
    Maintains P (if c then MonadExcept.throw e >>= f else x) := by
  split
  · exact fun _ hs => hs
  · exact h

theorem observe (h : Maintains P x) : Maintains P x.observe := h

theorem after (h : Maintains P x) {result : Except Failure α} (hs : P s)
    (hout : x.outcome s = (result, t)) : P t := by
  have ht := h hs
  rwa [hout] at ht

theorem ofExcept (result : Except Failure α) : Maintains P (Attempt.ofExcept result) :=
  fun _ h => h

theorem forM {f : β → Attempt σ PUnit} (h : ∀ b, Maintains P (f b)) (bs : List β) :
    Maintains P (ForM.forM bs f) := by
  induction bs with
  | nil => exact .pure _
  | cons b bs ih => exact (h b).bind fun _ => ih

end Maintains

end Attempt

end ShellFold
