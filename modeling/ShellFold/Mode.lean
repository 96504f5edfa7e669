/-!
# Expansion modes

How the result of an expansion may be shaped, which depends on the place of the word in the
command.
-/

set_option autoImplicit false

namespace ShellFold

/-- The shape asked of an expansion. -/
inductive Mode
  /-- Fields are split: any number of words results, none included. -/
  | split
  /-- One word, never split: case words and patterns, conditional and arithmetic operands,
  assigned values. -/
  | noSplit
  /-- A redirection target: one word. -/
  | target
  /-- One text in which quote characters stand for themselves. -/
  | heredoc
  deriving DecidableEq, Repr

def Mode.name : Mode → String
  | .split => "split"
  | .noSplit => "no-split"
  | .target => "target"
  | .heredoc => "heredoc"

def Mode.ofName? (name : String) : Option Mode :=
  [.split, .noSplit, .target, .heredoc].find? (·.name == name)

theorem Mode.ofName?_name (m : Mode) : ofName? m.name = some m := by
  cases m <;> decide

end ShellFold
