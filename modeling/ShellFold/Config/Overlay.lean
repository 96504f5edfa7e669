import ShellFold.Config.Basic
import ShellFold.Toml.Reader

/-!
# Settings of a user

The user's settings are laid over the defaults: what is given replaces what is there, and the
arguments of the shell are extended, less those to be removed, unless the list is to be replaced.
A group of settings is a table, or an array of all of them in order (`Toml.record?`). A document
that cannot be read, or gives a setting of the wrong kind, counts as a whole for nothing
(`Settings.load`).
-/

set_option autoImplicit false

namespace ShellFold

namespace Toml

def text? : Toml → Option Text
  | string s => some s.toList
  | _ => none

def bool? : Toml → Option Bool
  | boolean b => some b
  | _ => none

def nat? : Toml → Option Nat
  | integer n => if 0 ≤ n then some n.toNat else none
  | _ => none

def texts? : Toml → Option (List Text)
  | array items => items.mapM text?
  | _ => none

/-- The entries of a group of settings: of a table, or of an array with an item for each of them in
order and perhaps more. A date or time is a group without any that is known. -/
def record? (names : List String) : Toml → Option Entries
  | table _ entries => some entries
  | moment _ => some []
  | array items => if names.length ≤ items.length then some (names.zip items) else none
  | _ => none

/-- The name of a constant: a string, or a table whose one entry has that name and holds
nothing. -/
def name? : Toml → Option String
  | string s => some s
  | table _ [(s, array [])] => some s
  | table _ [(s, table _ [])] => some s
  | _ => none

/-- A setting that may be left out. -/
def Entries.setting? {α : Type} (entries : Entries) (key : String) (decode : Toml → Option α) :
    Option (Option α) :=
  match entries.lookup key with
  | none => some none
  | some value => (decode value).map some

end Toml

/-- What a user sets of the log. -/
structure LogOverlay where
  debug : Option Bool := none
  file : Option Text := none

/-- What a user sets of the oracle. -/
structure OracleOverlay where
  /-- The list of arguments given is the whole list. -/
  replace : Bool := false
  backend : Option Backend := none
  shell : Option Text := none
  shellArguments : List Text := []
  removedArguments : List Text := []
  sentinel : Option Text := none
  timeout : Option Nat := none
  temporaryDirectory : Option Text := none

/-- What a user sets. -/
structure Overlay where
  log : LogOverlay := {}
  oracle : OracleOverlay := {}

open Toml (Entries)

def LogOverlay.names : List String := ["debug", "log_file"]

def LogOverlay.ofEntries? (entries : Entries) : Option LogOverlay :=
  return {
    debug := ← entries.setting? "debug" Toml.bool?
    file := ← entries.setting? "log_file" Toml.text? }

def OracleOverlay.names : List String :=
  ["replace", "backend", "shell", "shell_args", "remove_shell_args", "sentinel", "timeout_ms",
    "temp_dir"]

def OracleOverlay.ofEntries? (entries : Entries) : Option OracleOverlay :=
  return {
    replace := (← entries.setting? "replace" Toml.bool?).getD false
    backend := ← entries.setting? "backend" fun v => do Backend.ofName? (← v.name?)
    shell := ← entries.setting? "shell" Toml.text?
    shellArguments := (← entries.setting? "shell_args" Toml.texts?).getD []
    removedArguments := (← entries.setting? "remove_shell_args" Toml.texts?).getD []
    sentinel := ← entries.setting? "sentinel" Toml.text?
    timeout := ← entries.setting? "timeout_ms" Toml.nat?
    temporaryDirectory := ← entries.setting? "temp_dir" Toml.text? }

/-- The settings in the root table of a document. Tables and keys it does not know are ignored. -/
def Overlay.ofEntries? (root : Entries) : Option Overlay := do
  let log ← root.setting? "settings" fun v => do
    LogOverlay.ofEntries? (← v.record? LogOverlay.names)
  let oracle ← root.setting? "oracle" fun v => do
    OracleOverlay.ofEntries? (← v.record? OracleOverlay.names)
  return { log := log.getD {}, oracle := oracle.getD {} }

def Overlay.read? (document : Text) : Option Overlay := do
  Overlay.ofEntries? (← Toml.read? document)

/-- A list with items added that it does not have, each once. -/
def addMissing (list added : List Text) : List Text :=
  added.foldl (fun list item => if item ∈ list then list else list ++ [item]) list

/-- The arguments of the shell with those of a user laid over them. -/
def OracleOverlay.arguments (overlay : OracleOverlay) (defaults : List Text) : List Text :=
  if overlay.replace then overlay.shellArguments
  else
    addMissing (defaults.filter fun item => item ∉ overlay.removedArguments)
      overlay.shellArguments

/-- The settings with those of a user laid over them. -/
def Settings.overlaid (settings : Settings) (overlay : Overlay) : Settings where
  log := {
    debug := overlay.log.debug.getD settings.log.debug
    file := overlay.log.file.getD settings.log.file }
  oracle := {
    backend := overlay.oracle.backend.getD settings.oracle.backend
    shell := overlay.oracle.shell.getD settings.oracle.shell
    shellArguments := overlay.oracle.arguments settings.oracle.shellArguments
    sentinel := overlay.oracle.sentinel.getD settings.oracle.sentinel
    timeout := overlay.oracle.timeout.getD settings.oracle.timeout
    temporaryDirectory :=
      overlay.oracle.temporaryDirectory.getD settings.oracle.temporaryDirectory }

/-- The settings in force when a user has the given document, if any, and whether it had to be
ignored. -/
def Settings.load (document : Option Text) : Settings × Bool :=
  match document with
  | none => ({}, false)
  | some document =>
    match Overlay.read? document with
    | some overlay => (({} : Settings).overlaid overlay, false)
    | none => ({}, true)

end ShellFold
