import ShellFold.Proofs.Ledger
import ShellFold.Proofs.Script

/-!
# Statements are handed over once

A client puts statements into a journal, has it flushed and has it drop what is pending, in any
order, while the oracle carries out the files it is handed or fails on them. `Journal.Books` keeps
the books of such a run: the statements that were recorded, the files that the oracle was handed and
the buffers that were dropped. Every recorded statement has one fate (`Journal.fates`), which the
first flush or drop behind it decides, and the books tell the statements of each fate in the order
in which they were recorded (`Books.run_settles`).
-/

set_option autoImplicit false

namespace ShellFold

namespace Journal

/-! ## Fates -/

/-- What becomes of a recorded statement. -/
inductive Fate
  | handedOver
  | dropped
  | pending
  deriving DecidableEq, Repr

section

variable {α : Type}

/-- The fate of what is pending before the actions. -/
def fateOf : List (Action α) → Fate
  | [] => .pending
  | .record _ :: rest => fateOf rest
  | .flush :: _ => .handedOver
  | .discard :: _ => .dropped

/-- The fate of each thing that the actions record, in order. -/
def fates : List (Action α) → List Fate
  | [] => []
  | .record _ :: rest => fateOf rest :: fates rest
  | .flush :: rest | .discard :: rest => fates rest

/-- Those of some things that have the given one of their fates, in order. -/
def having (fate : Fate) (as : List α) (fates : List Fate) : List α :=
  ((as.zip fates).filter (·.2 = fate)).map Prod.fst

variable {queue as bs : List α} {fs gs : List Fate} {fate : Fate}

theorem length_fates (l : List (Action α)) : (fates l).length = (recorded l).length := by
  induction l with
  | nil => rfl
  | cons action l ih => cases action <;> simp [fates, recorded, ih]

theorem having_append (h : as.length = fs.length) :
    having fate (as ++ bs) (fs ++ gs) = having fate as fs ++ having fate bs gs := by
  rw [having, List.zip_append h, List.filter_append, List.map_append]
  rfl

theorem having_cons (a : α) (f : Fate) :
    having fate (a :: as) (f :: fs) = (if f = fate then [a] else []) ++ having fate as fs := by
  simp only [having, List.zip_cons_cons, List.filter_cons]
  split <;> simp_all

/-- Things of one fate. -/
theorem having_replicate (f : Fate) :
    having fate as (.replicate as.length f) = if f = fate then as else [] := by
  induction as with
  | nil => simp [having]
  | cons a as ih =>
    rw [List.length_cons, List.replicate_succ, having_cons, ih]
    split <;> rfl

/-- What is pending before the actions and what they record is handed over, dropped or pending
after them by its fate. -/
theorem having_fates (queue : List α) (l : List (Action α)) :
    having .handedOver (queue ++ recorded l) (.replicate queue.length (fateOf l) ++ fates l) =
        handedOver queue l ∧
      having .dropped (queue ++ recorded l) (.replicate queue.length (fateOf l) ++ fates l) =
        dropped queue l ∧
      having .pending (queue ++ recorded l) (.replicate queue.length (fateOf l) ++ fates l) =
        queueAfter queue l := by
  induction l generalizing queue with
  | nil => simp [recorded, fates, fateOf, handedOver, dropped, queueAfter, having_replicate]
  | cons action l ih =>
    cases action with
    | record a =>
      have hthings : queue ++ recorded (.record a :: l) = (queue ++ [a]) ++ recorded l := by
        simp [recorded]
      have hfates :
          List.replicate queue.length (fateOf (.record a :: l)) ++ fates (.record a :: l) =
            .replicate (queue ++ [a]).length (fateOf l) ++ fates l := by
        simp [fates, fateOf, List.replicate_add]
      rw [hthings, hfates]
      exact ih (queue ++ [a])
    | flush | discard =>
      simp only [having_append List.length_replicate.symm, having_replicate]
      simpa [recorded, fates, fateOf, handedOver, dropped, queueAfter] using ih []

end

/-! ## Books -/

/-- The books of a run: the oracle and the journal as they are, the statements that were recorded,
the scripts that the oracle was handed and the buffers that were dropped, each in order. -/
structure Books (σ : Type) where
  oracle : σ
  journal : Journal
  recorded : List Statement := []
  scripts : List Script := []
  dropped : List (List Text) := []

/-- Has an oracle carry out a script, and notes that it was handed it. -/
def noting {σ : Type} (source : Script → Attempt σ Unit) (script : Script) :
    Attempt (σ × List Script) Unit :=
  Attempt.ofOutcome fun (oracle, scripts) =>
    let (result, oracle) := (source script).outcome oracle
    (result, oracle, scripts ++ [script])

/-- What an action on statements is to their lines. One on a statement that cannot be written is
none. -/
def Action.written? : Action Statement → Option (Action Text)
  | record statement =>
    match statement.render with
    | .ok line => some (record line)
    | .error _ => none
  | flush => some flush
  | discard => some discard

/-- The file in which statements are handed over. -/
def script (path : Text) (statements : List Text) : Script := ⟨path, some (fileOf statements)⟩

namespace Books

variable {σ : Type}

/-- The books before anything is done with a new journal. -/
def new (oracle : σ) (path : Text) : Books σ := { oracle, journal := { path } }

/-- Carries out an action, which may fail. -/
def step (source : Script → Attempt σ Unit) (books : Books σ) : Action Statement → Books σ
  | .record statement =>
    let (result, journal) := (push statement).outcome books.journal
    let noted := if result.isOk then [statement] else []
    { books with journal, recorded := books.recorded ++ noted }
  | .flush =>
    let (_, (oracle, scripts), journal) :=
      (Journal.flush (noting source)).outcome ((books.oracle, books.scripts), books.journal)
    { books with oracle, scripts, journal }
  | .discard =>
    { books with
      journal := books.journal.discard
      dropped := books.dropped ++ [books.journal.pending] }

/-- Carries out actions one after the other, whether or not those before have failed. -/
def run (source : Script → Attempt σ Unit) (books : Books σ) (actions : List (Action Statement)) :
    Books σ := actions.foldl (step source) books

/-- What the books have come to by actions on the lines of statements. -/
structure Settles (before : Books σ) (l : List (Action Text)) (after : Books σ) : Prop where
  path : after.journal.path = before.journal.path
  content : after.journal.content = []
  recorded : ∃ statements : List Statement, after.recorded = before.recorded ++ statements ∧
    Statement.WrittenAs statements (Journal.recorded l)
  scripts : ∃ batches : List (List Text),
    after.scripts = before.scripts ++ batches.map (script before.journal.path) ∧
      batches.flatten = Journal.handedOver before.journal.pending l ∧ [] ∉ batches
  dropped : after.dropped.flatten =
    before.dropped.flatten ++ Journal.dropped before.journal.pending l
  pending : after.journal.pending = Journal.queueAfter before.journal.pending l

variable {books mid after : Books σ} {l m : List (Action Text)}

theorem Settles.nil (h : books.journal.content = []) : Settles books [] books where
  path := rfl
  content := h
  recorded := ⟨[], by simp, .nil⟩
  scripts := ⟨[], by simp, rfl, List.not_mem_nil⟩
  dropped := by simp [Journal.dropped]
  pending := rfl

theorem Settles.append (h : Settles books l mid) (h' : Settles mid m after) :
    Settles books (l ++ m) after := by
  obtain ⟨statements, hrecorded, hwritten⟩ := h.recorded
  obtain ⟨statements', hrecorded', hwritten'⟩ := h'.recorded
  obtain ⟨batches, hscripts, hbatches, hne⟩ := h.scripts
  obtain ⟨batches', hscripts', hbatches', hne'⟩ := h'.scripts
  rw [h.path] at hscripts'
  rw [h.pending] at hbatches'
  refine ⟨h'.path.trans h.path, h'.content, ⟨statements ++ statements', ?_, ?_⟩,
    ⟨batches ++ batches', ?_, ?_, ?_⟩, ?_, ?_⟩
  · rw [hrecorded', hrecorded, List.append_assoc]
  · rw [recorded_append]
    exact List.rel_append hwritten hwritten'
  · rw [hscripts', hscripts, List.map_append, List.append_assoc]
  · rw [List.flatten_append, hbatches, hbatches', handedOver_append]
  · rw [List.mem_append, not_or]
    exact ⟨hne, hne'⟩
  · rw [h'.dropped, h.dropped, h.pending, dropped_append, List.append_assoc]
  · rw [h'.pending, h.pending, queueAfter_append]

variable (source : Script → Attempt σ Unit)

theorem settles_record (statement : Statement) (h : books.journal.content = []) :
    Settles books (Action.written? (.record statement)).toList
      (books.step source (.record statement)) := by
  rw [Action.written?]
  cases hrender : statement.render with
  | ok line =>
    have hpush : (push statement).outcome books.journal =
        (.ok (), { books.journal with pending := books.journal.pending ++ [line] }) := by
      rw [push, hrender]
      rfl
    rw [step, hpush]
    exact ⟨rfl, h, ⟨[statement], rfl, .cons hrender .nil⟩, ⟨[], by simp, rfl, List.not_mem_nil⟩,
      by simp [Journal.dropped], rfl⟩
  | error e =>
    have hpush : (push statement).outcome books.journal = (.error e, books.journal) := by
      rw [push, hrender]
      rfl
    have hsame : books.step source (.record statement) = books := by
      rw [step, hpush]
      simp [Except.isOk, Except.toBool]
    rw [hsame]
    exact .nil h

/-- A flush with nothing pending hands nothing over. -/
theorem step_flush_nil (h : books.journal.pending = []) : books.step source .flush = books := by
  simp only [step, Journal.flush, Attempt.outcome_ofOutcome, if_pos h]

/-- A flush hands over what is pending in one file, and empties the journal whether the oracle fails
or not. -/
theorem step_flush (h : books.journal.pending ≠ []) :
    ∃ oracle, books.step source .flush =
      { books with
        oracle
        journal := { books.journal with pending := [], content := [] }
        scripts := books.scripts ++ [script books.journal.path books.journal.pending] } := by
  simp only [step, Journal.flush, Attempt.outcome_ofOutcome, if_neg h, noting]
  exact ⟨_, rfl⟩

theorem settles_flush (h : books.journal.content = []) :
    Settles books [.flush] (books.step source .flush) := by
  by_cases hpending : books.journal.pending = []
  · rw [step_flush_nil source hpending]
    refine ⟨rfl, h, ⟨[], by simp, .nil⟩, ⟨[], by simp, ?_, List.not_mem_nil⟩, ?_, ?_⟩
    · simp [handedOver, hpending]
    · simp [Journal.dropped]
    · simp [queueAfter, hpending]
  · obtain ⟨oracle, hstep⟩ := step_flush source hpending
    rw [hstep]
    refine ⟨rfl, rfl, ⟨[], by simp, .nil⟩, ⟨[books.journal.pending], rfl, ?_, ?_⟩, ?_, rfl⟩
    · simp [handedOver]
    · simpa using Ne.symm hpending
    · simp [Journal.dropped]

theorem settles_discard (h : books.journal.content = []) :
    Settles books [.discard] (books.step source .discard) := by
  refine ⟨rfl, h, ⟨[], by simp [step], .nil⟩, ⟨[], by simp [step], rfl, List.not_mem_nil⟩, ?_, rfl⟩
  simp [step, Journal.dropped]

theorem settles_step (action : Action Statement) (h : books.journal.content = []) :
    Settles books action.written?.toList (books.step source action) := by
  cases action with
  | record statement => exact settles_record source statement h
  | flush => exact settles_flush source h
  | discard => exact settles_discard source h

theorem settles_run (actions : List (Action Statement)) (h : books.journal.content = []) :
    Settles books (actions.filterMap Action.written?) (books.run source actions) := by
  induction actions generalizing books with
  | nil => exact .nil h
  | cons action actions ih =>
    have hstep := settles_step source action h
    have hrun := hstep.append (ih hstep.content)
    have hlines : (action :: actions).filterMap Action.written? =
        action.written?.toList ++ actions.filterMap Action.written? := by
      rw [List.filterMap_cons]
      cases action.written? <;> rfl
    rw [hlines]
    exact hrun

end Books

end Journal

end ShellFold
