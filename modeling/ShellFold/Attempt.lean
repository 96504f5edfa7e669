import ShellFold.Failure

/-!
# Attempts

An `Attempt σ α` changes a state and yields a value or fails; when it fails, the state stays as
far as it got. `Attempt.outcome_bind` and its companions say what each way of combining attempts
does to a state.
-/

set_option autoImplicit false

namespace ShellFold

/-- A computation on a state that may fail and then keeps the state it has reached. -/
abbrev Attempt (σ α : Type) := ExceptT Failure (StateM σ) α

namespace Attempt

variable {σ τ α β : Type}

/-- The outcome of an attempt in a state, and the state it leaves. -/
def outcome (x : Attempt σ α) (s : σ) : Except Failure α × σ :=
  Id.run (StateT.run (ExceptT.run x) s)

/-- The attempt with a given outcome in each state. -/
def ofOutcome (f : σ → Except Failure α × σ) : Attempt σ α := ExceptT.mk fun s => pure (f s)

/-- The attempt that does not look at the state. -/
def ofExcept (result : Except Failure α) : Attempt σ α := ofOutcome fun s => (result, s)

/-- The attempt that succeeds with the outcome of another. -/
def observe (x : Attempt σ α) : Attempt σ (Except Failure α) :=
  ofOutcome fun s =>
    let (result, t) := x.outcome s
    (.ok result, t)

/-- An attempt on the first part of a state. -/
def onFirst (x : Attempt σ α) : Attempt (σ × τ) α :=
  ofOutcome fun (s, t) =>
    let (result, s) := x.outcome s
    (result, s, t)

def onSecond (x : Attempt τ α) : Attempt (σ × τ) α :=
  ofOutcome fun (s, t) =>
    let (result, t) := x.outcome t
    (result, s, t)

@[simp] theorem outcome_ofOutcome (f : σ → Except Failure α × σ) (s : σ) :
    (ofOutcome f).outcome s = f s := rfl

@[simp] theorem outcome_ofExcept (result : Except Failure α) (s : σ) :
    (ofExcept result).outcome s = (result, s) := rfl

@[simp] theorem outcome_pure (a : α) (s : σ) : outcome (pure a : Attempt σ α) s = (.ok a, s) := rfl

@[simp] theorem outcome_throw (e : Failure) (s : σ) :
    outcome (throw e : Attempt σ α) s = (.error e, s) := rfl

/-- An attempt followed by another: the second starts where the first ended, if it succeeded. -/
theorem outcome_bind (x : Attempt σ α) (f : α → Attempt σ β) (s : σ) :
    (x >>= f).outcome s =
      match x.outcome s with
      | (.ok a, t) => (f a).outcome t
      | (.error e, t) => (.error e, t) := by
  show Id.run (StateT.run (ExceptT.run (x >>= f)) s) = _
  simp only [ExceptT.run_bind, StateT.run_bind, Id.run_bind, outcome]
  rcases Id.run (StateT.run (ExceptT.run x) s) with ⟨_ | _, _⟩ <;> rfl

theorem ext {x y : Attempt σ α} (h : ∀ s, x.outcome s = y.outcome s) : x = y := funext h

end Attempt

end ShellFold
