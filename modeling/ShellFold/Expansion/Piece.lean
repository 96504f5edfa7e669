import ShellFold.Expansion.Reference
import ShellFold.Mode
import ShellFold.Text.Tokens

/-!
# Pieces of a word

A word is read into pieces before any of them is evaluated: literal text, the home directory,
parameter references, and at the first construct that cannot be read a failure, which ends the
list. The reading (`Piece.ofText`) depends on the word and its mode alone, not on the state of
the shell. It goes from left to right in a `Quoting`, by steps (`Quoting.step`) each of which
takes at least one character (`Quoting.length_step`).
-/

set_option autoImplicit false

namespace ShellFold

/-- A piece of a word, in the order of evaluation. -/
inductive Piece
  /-- Literal text; even an empty one is content. -/
  | text (s : Text)
  | home
  | value (quoted : Bool) (name : Text)
  | length (quoted : Bool) (name : Text)
  | choice (quoted : Bool) (choice : Choice) (nonEmpty : Bool) (name : Text) (word : List Piece)
  /-- A parameter that is looked up before the piece fails. -/
  | rejected (name : Text) (failure : Failure)
  | failure (e : Failure)

/-- Where in a word the reader stands. -/
inductive Quoting
  | bare
  /-- In double quotes; `sawList` tells whether the list of parameters was referred to in them. -/
  | quoted (sawList : Bool)
  /-- In a nested word that is read as in double quotes, to its end. -/
  | nested (sawList : Bool)
  | document
  deriving DecidableEq, Repr

/-- What one step of the reader finds. -/
inductive Lexeme
  /-- Nothing that counts as content. -/
  | nothing
  | text (s : Text)
  | reference (ref : Reference)
  | failure (e : Failure)
  deriving DecidableEq, Repr

/-- What a step finds, where it leads and what it leaves. -/
structure Step where
  lexeme : Lexeme
  quoting : Quoting
  rest : Text
  deriving DecidableEq, Repr

/-- Whether a text in front of which a dollar sign stands refers to the list of parameters. -/
def startsList (s : Text) : Bool := ['@'].isPrefixOf s || ['{', '@'].isPrefixOf s

namespace Quoting

/-- Whether values are taken as they are, not split. -/
def isQuoted : Quoting → Bool
  | bare => false
  | quoted _ | nested _ | document => true

/-- Whether a backslash is lost in front of a character. -/
def escapes (q : Quoting) (c : Char) : Bool :=
  match q with
  | bare => true
  | quoted _ | nested _ => Text.isEscapable c
  | document => c = '$' || c = '\x60' || c = '\\'

/-- The step behind a backslash. -/
def stepEscape (q : Quoting) : Text → Step
  | [] => ⟨.text ['\\'], q, []⟩
  | c :: rest =>
    if c = '\n' then ⟨.nothing, q, rest⟩
    else ⟨.text (if q.escapes c then [c] else ['\\', c]), q, rest⟩

/-- The quoting behind a dollar sign in front of a text. -/
def noteList (q : Quoting) (s : Text) : Quoting :=
  match q with
  | quoted sawList => quoted (sawList || startsList s)
  | nested sawList => nested (sawList || startsList s)
  | q => q

def stepDollar (q : Quoting) (s : Text) : Step :=
  let (dollar, rest) := afterDollar q.isQuoted s
  let lexeme : Lexeme :=
    match dollar with
    | .sign => .text ['$']
    | .reference ref => .reference ref
    | .failure e => .failure e
  ⟨lexeme, q.noteList s, rest⟩

/-- What the end of a quotation adds: an empty quotation is content, unless it held the list of
parameters. -/
def closing (sawList : Bool) : Lexeme := if sawList then .nothing else .text []

/-- The step behind a double quote. -/
def stepQuote (q : Quoting) (rest : Text) : Step :=
  match q with
  | bare => ⟨.nothing, quoted false, rest⟩
  | quoted sawList => ⟨closing sawList, bare, rest⟩
  | q => ⟨.text ['"'], q, rest⟩

/-- The step behind a single quote outside double quotes. -/
def stepSingle (rest : Text) : Step :=
  match rest.splitOnce? '\'' with
  | some (literal, after) => ⟨.text literal, bare, after⟩
  | none => ⟨.failure (.early .unterminatedSingleQuote), bare, []⟩

/-- The step over a character and as much of the rest as belongs to it. -/
def step (q : Quoting) (c : Char) (rest : Text) : Step :=
  if c = '\\' then q.stepEscape rest
  else if c = '$' then q.stepDollar rest
  else if c = '\x60' then ⟨.failure (.impure .backtick), q, rest⟩
  else if c = '"' then q.stepQuote rest
  else if c = '\'' ∧ q = bare then stepSingle rest
  else if c = '[' ∧ q = bare then ⟨.failure (.unimplemented .bracketGlob), q, rest⟩
  else ⟨.text [c], q, rest⟩

/-- What the end of a word is in a place. -/
def atEnd : Quoting → Lexeme
  | bare | document => .nothing
  | quoted _ => .failure (.early .unterminatedDoubleQuote)
  | nested sawList => closing sawList

/-- A step never puts back the character it is over. -/
theorem length_step (q : Quoting) (c : Char) (rest : Text) :
    (q.step c rest).rest.length ≤ rest.length := by
  unfold step
  split
  · unfold stepEscape
    repeat' split
    all_goals simp
  · split
    · simpa [stepDollar] using length_afterDollar q.isQuoted rest
    · split
      · simp
      · split
        · unfold stepQuote
          split <;> simp
        · split
          · unfold stepSingle
            split
            · next h => exact Nat.le_of_lt (Text.length_of_splitOnce? h)
            · simp
          · split <;> simp

/-- The nested word of a reference is no longer than what follows the dollar sign. -/
theorem length_word_step {q : Quoting} {c : Char} {rest : Text} {ref : Reference}
    (h : (q.step c rest).lexeme = .reference ref) : ref.word.length ≤ rest.length := by
  unfold step at h
  split at h
  · unfold stepEscape at h
    repeat' split at h
    all_goals simp at h
  · split at h
    · simp only [stepDollar] at h
      split at h
      · simp at h
      · next hd =>
        simp only [Lexeme.reference.injEq] at h
        exact h ▸ length_word_afterDollar hd
      · simp at h
    · split at h
      · simp at h
      · split at h
        · unfold stepQuote closing at h
          repeat' split at h
          all_goals simp at h
        · split at h
          · unfold stepSingle at h
            split at h <;> simp at h
          · split at h <;> simp at h

end Quoting

namespace Piece

/-- The piece of a reference whose nested word has been read. -/
def ofReference (quoted : Bool) (word : List Piece) : Reference → Piece
  | .value name => value quoted name
  | .length name => length quoted name
  | .choice which nonEmpty name _ => choice quoted which nonEmpty name word
  | .rejected name e => rejected name e

/-- The pieces of the rest of a word, read from a place. A nested word is read as in double quotes
where its reference is quoted. -/
def read (q : Quoting) (s : Text) : List Piece :=
  match s with
  | [] =>
    match q.atEnd with
    | .text s => [text s]
    | .failure e => [failure e]
    | .nothing | .reference _ => []
  | c :: rest =>
    let step := q.step c rest
    match _h : step.lexeme with
    | .nothing => read step.quoting step.rest
    | .text s => text s :: read step.quoting step.rest
    | .failure e => [failure e]
    | .reference ref =>
      let word := read (if q.isQuoted then .nested false else .bare) ref.word
      ofReference q.isQuoted word ref :: read step.quoting step.rest
termination_by s.length
decreasing_by
  all_goals rw [List.length_cons, Nat.lt_succ_iff]
  · exact q.length_step c rest
  · exact q.length_step c rest
  · exact Quoting.length_word_step _h
  · exact q.length_step c rest

/-- The part of a word that a tilde at its front begins, up to the first slash. -/
def tildeWord (s : Text) : Text := s.takeWhile (· ≠ '/')

/-- Whether a character keeps a tilde in front of it from being special. -/
def hidesTilde (c : Char) : Bool := c = '\'' || c = '"' || c = '\\' || c = '$'

/-- The piece a tilde word stands for. -/
def ofTilde (word : Text) : Piece :=
  if word = ['~'] then home
  else if word = ['~', '+'] ∨ word = ['~', '-'] then failure (.impure (.directoryStack none))
  else failure (.unimplemented (.userTilde word))

/-- The pieces of a word in a mode. -/
def ofText (mode : Mode) (s : Text) : List Piece :=
  if mode = .heredoc then read .document s
  else if s.head? = some '~' ∧ !(tildeWord s).any hidesTilde then
    ofTilde (tildeWord s) :: read .bare (s.dropWhile (· ≠ '/'))
  else read .bare s

end Piece

end ShellFold
