import ShellFold.Scan
import ShellFold.Session
import ShellFold.Tree.Basic

/-!
# Resolving words

Each word of a tree is scanned first. A word without anything to expand stays; any other is put
to the oracle and replaced by literals. Arguments may become any number of words, all other words
become one.
-/

set_option autoImplicit false

namespace ShellFold

variable {σ : Type} [Oracle σ]

namespace Word

/-- The words that an argument becomes. -/
def resolveArgument (w : Word) : Attempt (Session σ) (List Word) := do
  match ← Attempt.ofExcept w.scan with
  | .untouched => return [w]
  | .expand => return (← Session.expand w .split).map literal

def resolveArguments : List Word → Attempt (Session σ) (List Word)
  | [] => return []
  | w :: rest => do
    let words ← w.resolveArgument
    return words ++ (← resolveArguments rest)

/-- The only text of an expansion to one word. -/
def only : List Text → Except Failure Text
  | [value] => .ok value
  | _ => .error (.stuck .notOneWord)

/-- The text that a word expands to in a mode that does not split. -/
def resolveText (w : Word) (mode : Mode) : Attempt (Session σ) Text := do
  Attempt.ofExcept (only (← Session.expand w mode))

/-- The word that a single word becomes. -/
def resolve (mode : Mode) (w : Word) : Attempt (Session σ) Word := do
  match ← Attempt.ofExcept w.scan with
  | .untouched => return w
  | .expand => return literal (← w.resolveText mode)

def resolveEach (mode : Mode) : List Word → Attempt (Session σ) (List Word)
  | [] => return []
  | w :: rest => do
    let resolved ← w.resolve mode
    return resolved :: (← resolveEach mode rest)

/-- Whether the value of a word is simply its characters: nothing is expanded, and no backslash
takes part. -/
def isPlain (w : Word) (verdict : Verdict) : Bool :=
  verdict = .untouched && !w.rawChars.contains '\\'

/-- The word that an assigned value becomes, and the text that is assigned. -/
def resolveValue (w : Word) : Attempt (Session σ) (Word × Text) := do
  let verdict ← Attempt.ofExcept w.scan
  if w.isPlain verdict then return (w, w.value)
  else do
    let value ← w.resolveText .noSplit
    return (literal value, value)

end Word

namespace Redirection

/-- What a redirection becomes. Only files and here-documents on fixed descriptors can be
resolved. -/
def resolve (redirection : Redirection) : Attempt (Session σ) Redirection := do
  match redirection.descriptor with
  | .runtime name => throw (.impure (.runtimeDescriptor name.rawChars))
  | .fixed _ =>
    match redirection with
    | file operator descriptor target => return file operator descriptor (← target.resolve .target)
    | heredoc .expanding descriptor body =>
      return heredoc .expanding descriptor (← body.resolve .heredoc)
    | heredoc .literal _ _ => return redirection
    | duplicate .. => throw (.impure .descriptorDuplication)
    | close _ => throw (.impure .descriptorClose)

def resolveAll : List Redirection → Attempt (Session σ) (List Redirection)
  | [] => return []
  | redirection :: rest => do
    let resolved ← redirection.resolve
    return resolved :: (← resolveAll rest)

end Redirection

end ShellFold
