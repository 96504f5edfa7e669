import ShellFold.Proofs.Attempt
import ShellFold.Proofs.Ledger
import ShellFold.Session
import ShellFold.Tree.Basic

/-!
# Traces of sessions

What a client makes of a session, where it succeeds, is a sequence of questions, recorded
assignments and contexts. `Session.Leads` is such a sequence, told by what it does with the journal:
a question and the begin of a context hand over what is pending, and the end of a context drops it.
`Session.Asks` says of an attempt how many questions it is, and `Session.Recorder` which actions it
is, and that they record the assignments of its result.
-/

set_option autoImplicit false

namespace ShellFold

namespace Journal

/-- What a number of questions does with a journal. -/
def asked {α : Type} (n : Nat) : List (Action α) := .replicate n .flush

/-- What is done with a journal in a context, and to begin and end it. -/
def inContext {α : Type} (l : List (Action α)) : List (Action α) := .flush :: (l ++ [.discard])

section

variable {α β : Type} {n m : Nat} {l : List (Action α)}

theorem asked_add : asked (α := α) (n + m) = asked n ++ asked m :=
  List.replicate_append_replicate.symm

theorem map_asked (f : α → β) : (asked n).map (Action.map f) = asked n := List.map_replicate

theorem map_inContext (f : α → β) :
    (inContext l).map (Action.map f) = inContext (l.map (Action.map f)) := by
  simp [inContext, Action.map]

@[simp] theorem recorded_asked : recorded (asked (α := α) n) = [] := by
  induction n with
  | zero => rfl
  | succ n ih => exact ih

@[simp] theorem recorded_inContext : recorded (inContext l) = recorded l := by
  simp [inContext, recorded, recorded_append]

end

end Journal

open Journal (Action asked inContext recorded)

namespace Session

section

variable {σ α β : Type} [Oracle σ] {s t u entered last : Session σ}

/-- The one session becomes the other by steps that succeed: questions, assignments that are
recorded, and contexts of such steps. They are listed by what they do with the journal, assignments
with their names and values. -/
inductive Leads : List (Action (Text × Text)) → Session σ → Session σ → Prop
  | refl (s : Session σ) : Leads [] s s
  | trans {l m : List (Action (Text × Text))} {s t u : Session σ} : Leads l s t → Leads m t u →
      Leads (l ++ m) s u
  | expand {s t : Session σ} {w : Word} {mode : Mode} {fields : List Text} :
      (Session.expand w mode).outcome s = (.ok fields, t) → Leads [.flush] s t
  | record {s t : Session σ} {name value : Text} :
      (recordAssignment name value).outcome s = (.ok (), t) → Leads [.record (name, value)] s t
  | context {l : List (Action (Text × Text))} {s entered last t : Session σ} :
      enterScope.outcome s = (.ok (), entered) → Leads l entered last →
      leaveScope.outcome last = (.ok (), t) → Leads (inContext l) s t

/-! ## Questions -/

/-- Where the attempt succeeds, it has asked that many questions and recorded nothing. -/
def Asks (n : Nat) (x : Attempt (Session σ) α) : Prop :=
  ∀ ⦃s a t⦄, x.outcome s = (.ok a, t) → Leads (asked n) s t

namespace Asks

variable {n m : Nat} {x : Attempt (Session σ) α} {f : α → Attempt (Session σ) β}

theorem pure (a : α) : Asks (σ := σ) 0 (Pure.pure a) := by
  rintro s _ _ ⟨⟩
  exact .refl s

theorem throw (e : Failure) : Asks (σ := σ) (α := α) n (MonadExcept.throw e) := by
  rintro s _ _ ⟨⟩

theorem ofExcept (result : Except Failure α) : Asks (σ := σ) 0 (Attempt.ofExcept result) := by
  cases result with
  | ok a => exact .pure a
  | error e => exact .throw e

theorem bind (hx : Asks n x) (hf : ∀ a, Asks m (f a)) : Asks (n + m) (x >>= f) := by
  intro s b t h
  obtain ⟨a, u, hxs, hfu⟩ := Attempt.outcome_bind_eq_ok.1 h
  rw [Journal.asked_add]
  exact (hx hxs).trans (hf a hfu)

/-- What goes on with a result may rely on it. -/
theorem ofExcept_bind {result : Except Failure α}
    (h : ∀ a, result = .ok a → Asks n (f a)) : Asks n (Attempt.ofExcept result >>= f) := by
  cases result with
  | ok a => exact h a rfl
  | error e => exact .throw e

theorem expand (w : Word) (mode : Mode) : Asks (σ := σ) 1 (Session.expand w mode) :=
  fun _ _ _ h => .expand h

end Asks

/-! ## Recorded assignments -/

/-- By the actions, told by the names of the assignments, the one session becomes the other. What
they record has the names and values of `assignments`. -/
def Records (actions : List (Action Text)) (assignments : List Assignment) (s t : Session σ) :
    Prop :=
  ∃ l, Leads l s t ∧ l.map (Action.map Prod.fst) = actions ∧
    recorded l = assignments.map fun a => (a.name, a.value.value)

namespace Records

variable {k m : List (Action Text)} {as bs : List Assignment} {n : Nat}

theorem nil (s : Session σ) : Records [] [] s s := ⟨[], .refl s, rfl, rfl⟩

theorem append (h : Records k as s t) (h' : Records m bs t u) :
    Records (k ++ m) (as ++ bs) s u := by
  obtain ⟨l, hleads, rfl, hvalues⟩ := h
  obtain ⟨l', hleads', rfl, hvalues'⟩ := h'
  refine ⟨l ++ l', hleads.trans hleads', List.map_append, ?_⟩
  rw [Journal.recorded_append, hvalues, hvalues', List.map_append]

theorem of_asked (h : Leads (asked n) s t) : Records (asked n) [] s t :=
  ⟨asked n, h, Journal.map_asked _, Journal.recorded_asked⟩

/-- Questions after what is recorded. -/
theorem ask (h : Records k as s t) (h' : Leads (asked n) t u) :
    Records (k ++ asked n) as s u := by
  have hall := h.append (of_asked h')
  rwa [List.append_nil] at hall

/-- Questions before what is recorded. -/
theorem after_ask (h : Leads (asked n) s t) (h' : Records k as t u) :
    Records (asked n ++ k) as s u :=
  (of_asked h).append h'

theorem record {name value : Text} {w : Word} (hvalue : w.value = value)
    (h : (recordAssignment name value).outcome s = (.ok (), t)) :
    Records [.record name] [⟨name, w⟩] s t := by
  subst hvalue
  exact ⟨[.record (name, w.value)], .record h, rfl, rfl⟩

theorem context (henter : enterScope.outcome s = (.ok (), entered)) (h : Records k as entered last)
    (hleave : leaveScope.outcome last = (.ok (), t)) : Records (inContext k) as s t := by
  obtain ⟨l, hleads, rfl, hvalues⟩ := h
  exact ⟨inContext l, .context henter hleads hleave, Journal.map_inContext _,
    Journal.recorded_inContext.trans hvalues⟩

end Records

/-- Where the attempt succeeds, it has done the actions and recorded the assignments that `after`
finds in its result. -/
def Recorder (actions : List (Action Text)) (x : Attempt (Session σ) α)
    (after : α → List Assignment) : Prop :=
  ∀ ⦃s a t⦄, x.outcome s = (.ok a, t) → Records actions (after a) s t

end

end Session

end ShellFold
