import ShellFold.Failure
import ShellFold.Text.Quoted

/-!
# Words

A word of a command is a sequence of fragments: source characters that may still mean something
to the shell, and literals that stand for themselves. `Word.sourceText` writes a word as source
for an expansion, with its literals quoted; `Word.heredocText` does so for the body of a
here-document, where only `\`, `$` and the backtick mean anything; `Word.value` is what a word
without any expansion stands for.
-/

set_option autoImplicit false

namespace ShellFold

/-- A piece of a word. -/
inductive Fragment
  /-- A source character, not expanded. -/
  | raw (c : Char)
  /-- A literal: its text stands for itself. -/
  | quoted (text : Text)
  deriving DecidableEq, Repr

structure Word where
  fragments : List Fragment
  deriving DecidableEq, Repr, Inhabited

/-- Shell source for a literal; a NUL cannot be written. -/
def quoteLiteral (text : Text) : Except Failure Text :=
  match text.quote? with
  | some source => .ok source
  | none => .error (.early (.unquotable text))

namespace Fragment

/-- The source character of a fragment, if it is one. -/
def rawChar? : Fragment → Option Char
  | raw c => some c
  | quoted _ => none

def sourceText : Fragment → Except Failure Text
  | raw c => .ok [c]
  | quoted text => quoteLiteral text

/-- The characters that a backslash makes literal in a here-document. -/
def isHeredocSpecial (c : Char) : Bool := c = '\\' || c = '$' || c = '\x60'

def heredocText : Fragment → Text
  | raw c => [c]
  | quoted text => text.flatMap fun c => if isHeredocSpecial c then ['\\', c] else [c]

/-- The characters of a fragment. -/
def value : Fragment → Text
  | raw c => [c]
  | quoted text => text

end Fragment

namespace Word

/-- The word of a source text. -/
def ofText (s : Text) : Word := ⟨s.map .raw⟩

/-- The word that stands for a text. -/
def literal (s : Text) : Word := ⟨[.quoted s]⟩

/-- The source characters of a word, in order; literals have none. -/
def rawChars (w : Word) : Text := w.fragments.filterMap Fragment.rawChar?

def isEmpty (w : Word) : Bool := w.fragments.isEmpty

def isLiteral (w : Word) : Bool := w.fragments.all fun f => f.rawChar?.isNone

/-- Shell source for a word. -/
def sourceText (w : Word) : Except Failure Text :=
  List.flatten <$> w.fragments.mapM Fragment.sourceText

def heredocText (w : Word) : Text := w.fragments.flatMap Fragment.heredocText

/-- The characters of a word, source characters and literals alike. -/
def value (w : Word) : Text := w.fragments.flatMap Fragment.value

/-- The source characters of a source text are the text. -/
theorem rawChars_ofText (s : Text) : (ofText s).rawChars = s := by
  induction s with
  | nil => rfl
  | cons c rest ih => simpa [ofText, rawChars, Fragment.rawChar?] using ih

theorem rawChars_literal (s : Text) : (literal s).rawChars = [] := rfl

theorem value_literal (s : Text) : (literal s).value = s := by simp [literal, value, Fragment.value]

end Word

end ShellFold
