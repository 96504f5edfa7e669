import ShellFold.Expansion.Evaluate
import ShellFold.Oracle
import ShellFold.Statement

/-!
# The oracle without an interpreter

`Builtin` answers from a table of variables, by the expander of this library. A context saves the
scope at its begin and takes it back at its end.
-/

set_option autoImplicit false

namespace ShellFold

/-- A scope, and the scopes that contexts around it will take back, innermost first. -/
structure Builtin where
  scope : Scope := {}
  saved : List Scope := []

namespace Builtin

/-- The oracle with some option flags on and no variables. -/
def new (options : Text) : Builtin := { scope := { options } }

def expand (s : Text) (mode : Mode) : Attempt Builtin (List Text) := do
  Attempt.ofExcept ((← get).scope.expand mode s)

/-- Carries out an attempt on the variables of the current scope. -/
def onVariables {α : Type} (x : Attempt Variables α) : Attempt Builtin α :=
  Attempt.ofOutcome fun builtin =>
    let (result, vars) := x.outcome builtin.scope.vars
    (result, { builtin with scope := { builtin.scope with vars } })

def source (script : Script) : Attempt Builtin Unit :=
  match script.content with
  | none => throw (.io (.missingFile script.path))
  | some content => onVariables (Variables.applyScript content)

def setPositional (values : List Text) : Attempt Builtin Unit :=
  modify fun builtin => { builtin with scope := { builtin.scope with positional := values } }

def enterScope : Attempt Builtin Unit :=
  modify fun builtin => { builtin with saved := builtin.scope :: builtin.saved }

def leaveScope : Attempt Builtin Unit := do
  match (← get).saved with
  | [] => throw (.stuck .unmatchedLeave)
  | scope :: saved => set ({ scope, saved } : Builtin)

instance : Connected Builtin where
  expand := expand
  source := source
  setPositional := setPositional
  shellOptions := do return (← get).scope.options
  enterScope := enterScope
  leaveScope := leaveScope
  acceptsAssignments _ := true
  close := pure ()
  create _ environment := new environment.options
  connect _ _ := pure ()
  transcript _ := []

end Builtin

end ShellFold
