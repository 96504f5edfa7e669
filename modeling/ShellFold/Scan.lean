import ShellFold.Word

/-!
# The word scanner

Decides from the source characters of one word, in a single pass, whether expanding it could
have an effect. `scan` rejects a text at the first character that offends (`Scanner.offence?`),
and otherwise says whether anything in it is subject to expansion. Literals take no part:
`Word.scan` looks at source characters only.
-/

set_option autoImplicit false

namespace ShellFold

/-- What the scanner says of a word it accepts. -/
inductive Verdict
  /-- Nothing in the word is subject to expansion. -/
  | untouched
  /-- The word is free of effects and must be expanded. -/
  | expand
  deriving DecidableEq, Repr

/-- What the character before the current one was, as far as a rule of two characters cares. -/
inductive Window
  | other
  | dollar
  | angle
  | tilde
  | opening
  deriving DecidableEq, Repr

/-- The window after a character. -/
def Window.after (c : Char) : Window :=
  if c = '$' then .dollar
  else if c = '<' ∨ c = '>' then .angle
  else if c = '~' then .tilde
  else if c = '{' ∨ c = '[' then .opening
  else .other

/-- What the scanner remembers of the characters it has passed. -/
structure Scanner where
  window : Window := .other
  /-- A dollar sign has been passed. -/
  seenDollar : Bool := false
  /-- A parameter expansion in braces was opened and no brace closed since. -/
  inBraces : Bool := false
  needsExpansion : Bool := false
  deriving DecidableEq, Repr

/-- The characters that make a word subject to expansion. -/
def expandsWord (c : Char) : Bool :=
  c = '{' || c = '$' || c = '~' || c = '[' || c = '"' || c = '\''

namespace Scanner

/-- The construct an open parenthesis begins after the given window. -/
def parenthesis : Window → Impure
  | .dollar => .commandSubstitution
  | .angle => .processSubstitution
  | .other | .tilde | .opening => .arraySyntax

/-- Why a character must not stand where the scanner is, if it must not. -/
def offence? (s : Scanner) (c : Char) : Option Failure :=
  if c = '\x7f' then some (.stuck .deleteCharacter)
  else if c = '*' ∨ c = '?' ∨ c = '!' then some (.unimplemented (.globCharacter c))
  else if c = '\x60' then some (.impure .backtick)
  else if c = '(' then some (.impure (parenthesis s.window))
  else if c = '=' ∧ s.seenDollar then some (.impure .assignmentInExpansion)
  else if c = '@' ∧ s.inBraces ∧ s.window ≠ .opening then some (.impure .transformation)
  else if (c = '+' ∨ c = '-') ∧ s.window = .tilde then some (.impure (.directoryStack (some c)))
  else none

/-- The scanner past a character. -/
def advance (s : Scanner) (c : Char) : Scanner where
  window := .after c
  seenDollar := s.seenDollar || c = '$'
  inBraces := if c = '{' ∧ s.window = .dollar then true else if c = '}' then false else s.inBraces
  needsExpansion := s.needsExpansion || expandsWord c

/-- One step over a character. -/
def step (s : Scanner) (c : Char) : Except Failure Scanner :=
  match s.offence? c with
  | some failure => .error failure
  | none => .ok (s.advance c)

/-- The verdict at the end of a word. -/
def verdict (s : Scanner) : Verdict := if s.needsExpansion then .expand else .untouched

end Scanner

/-- Whether a text starts with an arithmetic expansion and assigns nothing. -/
def isPureArithmetic (s : Text) : Bool := ['$', '(', '('].isPrefixOf s && !s.contains '='

/-- The verdict on a text, or why it is rejected. Arithmetic that assigns nothing is accepted as
it stands. -/
def scan (s : Text) : Except Failure Verdict :=
  if isPureArithmetic s then .ok .expand else Scanner.verdict <$> s.foldlM Scanner.step {}

namespace Word

def scan (w : Word) : Except Failure Verdict := ShellFold.scan w.rawChars

def isScannable (w : Word) : Bool := w.scan.isOk

end Word

end ShellFold
