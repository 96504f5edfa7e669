import ShellFold.Text.Basic

/-!
# Settings

What can be configured: which oracle answers and how it is run (`OracleSettings`), and what is
logged (`LogSettings`). Paths may begin with a tilde for the home directory; an empty path stands
for a default.
-/

set_option autoImplicit false

namespace ShellFold

/-- Which oracle answers a session. -/
inductive Backend
  /-- A live interpreter. -/
  | bash
  /-- The expander of this library. -/
  | builtin
  deriving DecidableEq, Repr

def Backend.name : Backend → String
  | bash => "bash"
  | builtin => "builtin"

def Backend.ofName? (name : String) : Option Backend := [bash, builtin].find? (·.name == name)

/-- How the oracle is run. -/
structure OracleSettings where
  backend : Backend := .bash
  shell : Text := "bash".toList
  shellArguments : List Text :=
    ["--norc".toList, "--noprofile".toList, "--noediting".toList, "-i".toList]
  /-- The prompt that ends each reply of the interpreter. -/
  sentinel : Text := "__SH_EXPAND__$ ".toList
  /-- How long a reply may take, in milliseconds. -/
  timeout : Nat := 5000
  /-- The directory of the journal file; empty for the system's. -/
  temporaryDirectory : Text := []
  deriving DecidableEq, Repr

/-- What is logged. -/
structure LogSettings where
  debug : Bool := false
  /-- The file of the debug log; empty for one in the home directory. -/
  file : Text := []
  deriving DecidableEq, Repr

structure Settings where
  log : LogSettings := {}
  oracle : OracleSettings := {}
  deriving DecidableEq, Repr

/-- A path with a leading tilde replaced by the home directory, if there is one. -/
def expandHome (home : Option Text) (path : Text) : Text :=
  match home, path with
  | some directory, ['~'] => directory
  | some directory, '~' :: '/' :: rest => directory ++ '/' :: rest
  | _, _ => path

/-- The path that a setting gives, if it gives one. -/
def settingPath? (home : Option Text) (setting : Text) : Option Text :=
  if setting = [] then none else some (expandHome home setting)

/-- The directory of the journal file, if it is set. -/
def OracleSettings.directory? (settings : OracleSettings) (home : Option Text) : Option Text :=
  settingPath? home settings.temporaryDirectory

def LogSettings.path? (settings : LogSettings) (home : Option Text) : Option Text :=
  match settingPath? home settings.file with
  | some path => some path
  | none => home.map (· ++ "/.local/share/sh-expand/expand.log".toList)

end ShellFold
