import ShellFold.Text.Basic

/-!
# Tokens of a statement

`Text.tokens? s` reads a text as the words of one shell command without expanding anything:
blanks separate words, quotes and backslashes are taken away, a `#` where a word could begin
starts a comment. Each character moves the reader from one `TokenPlace` to the next; a text that
ends inside quotes or after a backslash has no reading.
-/

set_option autoImplicit false

namespace ShellFold.Text

/-- Where the reader of tokens stands; a place within a token carries what was read of it. -/
inductive TokenPlace
  | between
  | comment
  | bare (token : Text)
  | escape (token : Text)
  | single (token : Text)
  | double (token : Text)
  | doubleEscape (token : Text)
  deriving DecidableEq, Repr

def isSeparator (c : Char) : Bool := c = ' ' || c = '\t' || c = '\n'

/-- The place after a character that is read as part of a token outside quotes. -/
def TokenPlace.within (token : Text) (c : Char) : TokenPlace :=
  if c = '\'' then .single token
  else if c = '"' then .double token
  else if c = '\\' then .escape token
  else .bare (token ++ [c])

/-- Whether a backslash within double quotes takes the meaning from a character. -/
def isEscapable (c : Char) : Bool := c = '$' || c = '\x60' || c = '"' || c = '\\'

/-- The tokens of the rest of a text, read from a place. -/
def tokensFrom : TokenPlace → Text → Option (List Text)
  | .between, [] => some []
  | .comment, [] => some []
  | .bare token, [] => some [token]
  | .escape _, [] => none
  | .single _, [] => none
  | .double _, [] => none
  | .doubleEscape _, [] => none
  | .between, c :: rest =>
    if isSeparator c then tokensFrom .between rest
    else if c = '#' then tokensFrom .comment rest
    else tokensFrom (.within [] c) rest
  | .comment, c :: rest => tokensFrom (if c = '\n' then .between else .comment) rest
  | .bare token, c :: rest =>
    if isSeparator c then (tokensFrom .between rest).map (token :: ·)
    else tokensFrom (.within token c) rest
  | .escape token, c :: rest => tokensFrom (.bare (if c = '\n' then token else token ++ [c])) rest
  | .single token, c :: rest =>
    tokensFrom (if c = '\'' then .bare token else .single (token ++ [c])) rest
  | .double token, c :: rest =>
    tokensFrom
      (if c = '"' then .bare token
        else if c = '\\' then .doubleEscape token
        else .double (token ++ [c]))
      rest
  | .doubleEscape token, c :: rest =>
    tokensFrom
      (.double
        (if c = '\n' then token
          else if isEscapable c then token ++ [c]
          else token ++ ['\\', c]))
      rest

/-- The words of a statement, if every quote in it is closed. -/
def tokens? (s : Text) : Option (List Text) := tokensFrom .between s

end ShellFold.Text
