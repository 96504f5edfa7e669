import ShellFold.Attempt
import ShellFold.Config.Basic
import ShellFold.Terminal
import ShellFold.Variables

/-!
# Oracles

An oracle answers what a shell expands a word to. `Oracle σ` lists what every oracle can be
asked, as attempts on its state `σ`; `Connected σ` adds how one is started on a `Host` and what
it has been sent.
-/

set_option autoImplicit false

namespace ShellFold

/-- A file of statements as it is when it is handed to an oracle. -/
structure Script where
  path : Text
  /-- What the file holds, if it exists and is text. -/
  content : Option Text
  deriving DecidableEq, Repr

/-- A component that expands words as a shell does. -/
class Oracle (σ : Type) where
  /-- Expands a word; every mode but `split` yields one text. -/
  expand : Text → Mode → Attempt σ (List Text)
  /-- Carries out a file of assignment statements. -/
  source : Script → Attempt σ Unit
  /-- Replaces the positional parameters. -/
  setPositional : List Text → Attempt σ Unit
  /-- The option flags that are on. -/
  shellOptions : Attempt σ Text
  /-- Begins a context whose changes are dropped at its end. -/
  enterScope : Attempt σ Unit
  /-- Ends the innermost context. -/
  leaveScope : Attempt σ Unit
  /-- Whether assignments can be recorded for the oracle. -/
  acceptsAssignments : σ → Bool
  /-- Releases what the oracle holds; it may be asked for more than once. -/
  close : Attempt σ Unit

/-- The surroundings of a session. -/
structure Host where
  home : Option Text := none
  /-- The directory of temporary files. -/
  temporaryDirectory : Text := "/tmp".toList
  hasDirectory : Text → Bool
  /-- What a file holds, if it exists and is text. -/
  fileText : Text → Option Text
  /-- What starting the interpreter yields, if it can be started. -/
  terminal : Option Terminal := none

/-- A line sent to an interpreter, with the file that it has it read. -/
structure Sent where
  line : Text
  script : Option Script := none
  deriving DecidableEq, Repr

/-- An oracle that a session can start. -/
class Connected (σ : Type) extends Oracle σ where
  create : OracleSettings → Environment → σ
  /-- Starts the oracle. -/
  connect : OracleSettings → Host → Attempt σ Unit
  /-- What the oracle has been sent so far. -/
  transcript : σ → List Sent

end ShellFold
