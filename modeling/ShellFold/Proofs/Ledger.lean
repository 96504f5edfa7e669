import ShellFold.Journal

/-!
# What becomes of recorded assignments

A client of a journal records assignments, has those that are pending handed over to the oracle,
and drops them at the end of a context. A sequence of such actions decides for each assignment
whether it is handed over, dropped, or still pending at the end (`Journal.perm_recorded`), which is
all that the oracle ever learns of it.
-/

set_option autoImplicit false

namespace ShellFold

namespace Journal

/-- What is done with a journal, where of a recorded assignment `α` is told. -/
inductive Action (α : Type)
  /-- An assignment is recorded. -/
  | record (a : α)
  /-- What is pending is handed over to the oracle. -/
  | flush
  /-- What is pending is dropped. -/
  | discard
  deriving DecidableEq, Repr

/-- The action with something else told of the assignment. -/
def Action.map {α β : Type} (f : α → β) : Action α → Action β
  | record a => record (f a)
  | flush => flush
  | discard => discard

section

variable {α : Type}

/-- What is recorded, in order. -/
def recorded : List (Action α) → List α
  | [] => []
  | .record a :: rest => a :: recorded rest
  | .flush :: rest | .discard :: rest => recorded rest

/-- What is pending after the actions, when `queue` is pending before them. -/
def queueAfter (queue : List α) : List (Action α) → List α
  | [] => queue
  | .record a :: rest => queueAfter (queue ++ [a]) rest
  | .flush :: rest | .discard :: rest => queueAfter [] rest

/-- What the actions hand over, in order. -/
def handedOver (queue : List α) : List (Action α) → List α
  | [] => []
  | .record a :: rest => handedOver (queue ++ [a]) rest
  | .flush :: rest => queue ++ handedOver [] rest
  | .discard :: rest => handedOver [] rest

/-- What the actions drop, in order. -/
def dropped (queue : List α) : List (Action α) → List α
  | [] => []
  | .record a :: rest => dropped (queue ++ [a]) rest
  | .flush :: rest => dropped [] rest
  | .discard :: rest => queue ++ dropped [] rest

end

variable {α β : Type} {queue : List α} {l m : List (Action α)}

theorem recorded_append : recorded (l ++ m) = recorded l ++ recorded m := by
  induction l with
  | nil => rfl
  | cons action l ih => cases action <;> simp [recorded, ih]

theorem recorded_map (f : α → β) : recorded (l.map (Action.map f)) = (recorded l).map f := by
  induction l with
  | nil => rfl
  | cons action l ih => cases action <;> simp [recorded, Action.map, ih]

theorem queueAfter_append : queueAfter queue (l ++ m) = queueAfter (queueAfter queue l) m := by
  induction l generalizing queue with
  | nil => rfl
  | cons action l ih => cases action <;> exact ih

theorem handedOver_append :
    handedOver queue (l ++ m) = handedOver queue l ++ handedOver (queueAfter queue l) m := by
  induction l generalizing queue with
  | nil => rfl
  | cons action l ih =>
    cases action with
    | record a => exact ih
    | flush => simp only [List.cons_append, handedOver, queueAfter, ih, List.append_assoc]
    | discard => exact ih

theorem dropped_append :
    dropped queue (l ++ m) = dropped queue l ++ dropped (queueAfter queue l) m := by
  induction l generalizing queue with
  | nil => rfl
  | cons action l ih =>
    cases action with
    | record a => exact ih
    | flush => exact ih
    | discard => simp only [List.cons_append, dropped, queueAfter, ih, List.append_assoc]

theorem handedOver_map (f : α → β) :
    handedOver (queue.map f) (l.map (Action.map f)) = (handedOver queue l).map f := by
  induction l generalizing queue with
  | nil => rfl
  | cons action l ih =>
    cases action with
    | record a =>
      have hqueue : queue.map f ++ [f a] = (queue ++ [a]).map f := by simp
      rw [List.map_cons, Action.map, handedOver, hqueue, ih]
      rfl
    | flush =>
      rw [List.map_cons, Action.map, handedOver, handedOver, List.map_append]
      exact congrArg _ (@ih [])
    | discard => exact @ih []

/-- Nothing recorded is lost or handed over twice: it is handed over, dropped, or pending. -/
theorem perm_recorded (queue : List α) (l : List (Action α)) :
    (queue ++ recorded l).Perm (handedOver queue l ++ (dropped queue l ++ queueAfter queue l)) := by
  induction l generalizing queue with
  | nil => simp [recorded, handedOver, dropped, queueAfter]
  | cons action l ih =>
    cases action with
    | record a =>
      have hmid : queue ++ a :: recorded l = (queue ++ [a]) ++ recorded l := by simp
      rw [recorded, hmid]
      exact ih (queue ++ [a])
    | flush =>
      rw [recorded, handedOver, List.append_assoc]
      exact (ih []).append_left queue
    | discard =>
      -- what is dropped stands behind what is handed over later
      have hfront := (ih []).append_left queue
      rw [List.nil_append] at hfront
      refine hfront.trans ?_
      rw [dropped, List.append_assoc]
      exact List.perm_append_comm_assoc _ _ _

end Journal

end ShellFold
