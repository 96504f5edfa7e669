import ShellFold.Text.Basic

/-!
# Quoting a literal

`Text.quote? s` is shell source that stands for exactly `s`. The text is cut greedily into runs,
each as long as one of three styles can write it: bare, in single quotes, or in double quotes
with `"` and `\` escaped. A run takes the first of these styles it admits. A caret never shares a
run with what precedes it: it opens a run in single quotes. NUL cannot be written at all
(`quote?_eq_none_iff`).
-/

set_option autoImplicit false

namespace ShellFold.Text

/-- The styles in which a run of characters can be written. -/
structure Styles where
  bare : Bool
  single : Bool
  double : Bool
  deriving DecidableEq, Repr

namespace Styles

/-- The styles two runs admit together. -/
def meet (s t : Styles) : Styles where
  bare := s.bare && t.bare
  single := s.single && t.single
  double := s.double && t.double

/-- No style is left. -/
def isEmpty (s : Styles) : Bool := !(s.bare || s.single || s.double)

/-- The characters that need no quotes. -/
def isBare (c : Char) : Bool :=
  c.isAlphanum || c ∈ ['+', '-', '.', '/', ':', '@', ']', '_']

/-- The styles that can write a character in any place of a run. -/
def ofChar (c : Char) : Styles where
  bare := isBare c
  single := c ∉ ['\'', '^', '\\']
  double := c ∉ ['\x60', '$', '!', '^']

/-- The styles of a run that begins with a character. -/
def opening (c : Char) : Styles := if c = '^' then ⟨false, true, false⟩ else ofChar c

/-- A character of a run in double quotes. -/
def escapeInDouble (c : Char) : Text := if c = '"' ∨ c = '\\' then ['\\', c] else [c]

/-- A run in the first style it admits: bare, single quotes, double quotes. -/
def write (s : Styles) (run : Text) : Text :=
  if s.bare then run
  else if s.single then '\'' :: run ++ ['\'']
  else '"' :: run.flatMap escapeInDouble ++ ['"']

/-- Every character can open a run. -/
theorem opening_isEmpty (c : Char) : (opening c).isEmpty = false := by
  unfold opening
  split
  · rfl
  · next h =>
    by_cases h₁ : c = '\''
    · subst h₁; decide
    · by_cases h₂ : c = '\\'
      · subst h₂; decide
      · simp [ofChar, isEmpty, h, h₁, h₂]

end Styles

/-- The quoted form of a text of which `run`, in the styles given, is the run begun last. -/
def quoteFrom (run : Text) (styles : Styles) : Text → Text
  | [] => styles.write run
  | c :: rest =>
    let both := styles.meet (.ofChar c)
    if both.isEmpty then styles.write run ++ quoteFrom [c] (.opening c) rest
    else quoteFrom (run ++ [c]) both rest

/-- Shell source that stands for a text and nothing else, if there is such source. -/
def quote? (s : Text) : Option Text :=
  if '\x00' ∈ s then none
  else
    match s with
    | [] => some ['\'', '\'']
    | c :: rest => some (quoteFrom [c] (.opening c) rest)

/-- The only texts that cannot be quoted are those with a NUL. -/
theorem quote?_eq_none_iff (s : Text) : quote? s = none ↔ '\x00' ∈ s := by
  unfold quote?
  split
  · simp [*]
  · cases s <;> simp_all

end ShellFold.Text
