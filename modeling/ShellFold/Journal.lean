import ShellFold.Oracle
import ShellFold.Statement

/-!
# The journal of assignments

Assignments met in a tree are recorded in a `Journal` and handed to the oracle in one file before
its next answer can depend on them. A flush writes the pending statements to the file, has the
oracle carry it out, and empties both, whatever the oracle says: no statement is handed over
twice.
-/

set_option autoImplicit false

namespace ShellFold

/-- The statements recorded and not handed over, and the file to hand them over in. -/
structure Journal where
  path : Text
  pending : List Text := []
  content : Text := []
  deriving DecidableEq, Repr

namespace Journal

/-- Records a statement. -/
def push (statement : Statement) : Attempt Journal Unit := do
  let line ← Attempt.ofExcept statement.render
  modify fun journal => { journal with pending := journal.pending ++ [line] }

/-- The journal without the statements that are pending. -/
def discard (journal : Journal) : Journal := { journal with pending := [] }

/-- A file of statements, one to a line. -/
def fileOf (statements : List Text) : Text := statements.flatMap (· ++ ['\n'])

/-- Hands the pending statements over by `source`, if there are any. -/
def flush {σ : Type} (source : Script → Attempt σ Unit) : Attempt (σ × Journal) Unit :=
  Attempt.ofOutcome fun (oracle, journal) =>
    if journal.pending = [] then (.ok (), oracle, journal)
    else
      let script : Script := ⟨journal.path, some (fileOf journal.pending)⟩
      let (result, oracle) := (source script).outcome oracle
      (result, oracle, { journal with pending := [], content := [] })

/-- After a flush nothing is pending and the file is empty, if it was so before recording. -/
theorem content_flush {σ : Type} (source : Script → Attempt σ Unit) (oracle : σ)
    (journal : Journal) (h : journal.content = []) :
    ((flush source).outcome (oracle, journal)).2.2 = { journal with pending := [] } := by
  obtain ⟨path, pending, content⟩ := journal
  subst h
  simp only [flush, Attempt.outcome_ofOutcome]
  split <;> simp_all

end Journal

end ShellFold
