import ShellFold.Failure
import ShellFold.Text.Blank

/-!
# Probes

The commands by which a live interpreter is asked, and how its replies are read. Every probe
prints `marker` before its result, so that an empty result is told from a lost one. A probe for
one word puts the word behind an assignment, and `isSingleToken` makes sure that it stays there;
a probe for a here-document ends it by a line that the body must not have.
-/

set_option autoImplicit false

namespace ShellFold.Probe

/-- What every reply begins with. -/
def marker : Text := ['_']

/-- The line that ends a here-document. -/
def delimiter : Text := "__SH_EXPAND_EOF__".toList

/-- The variable that a probe for one word assigns to. -/
def scratch : Text := "__sh_expand_v".toList

/-- Asks for the fields of a word, each ended by a NUL. -/
def splitting (word : Text) : Text := "printf '%s\\0' ".toList ++ marker ++ ' ' :: word

/-- Asks for the value that assigning a word stores. -/
def assigning (word : Text) : Text :=
  scratch ++ '=' :: word ++ " && printf '".toList ++ marker ++ "%s' \"$".toList ++ scratch
    ++ "\"; unset ".toList ++ scratch

/-- Asks for the text of a here-document; the body ends with a newline or is empty. -/
def printing (body : Text) : Text :=
  "cat <<".toList ++ delimiter ++ '\n' :: body ++ delimiter

/-- Starts a loop in a subshell that reads commands, with backslashes and newlines escaped, and
prints the prompt after each. -/
def scopeLoop : Text :=
  ("( printf '%s' \"$PS1\"; while IFS= read -r __sh_expand_line; do " ++
    "printf -v __sh_expand_line '%b' \"$__sh_expand_line\"; " ++
    "eval \"$__sh_expand_line\"; printf '%s' \"$PS1\"; done )").toList

/-- Makes the terminal transparent and the prompts fixed. -/
def preparing : Text := "stty raw -echo; readonly PS1 PS2; set +H".toList

def options : Text := "printf '%s' \"$-\"".toList

/-- A command as the loop of a scope reads it: on one line. -/
def escape (command : Text) : Text :=
  command.flatMap fun c =>
    if c = '\\' then ['\\', '\\'] else if c = '\n' then ['\\', 'n'] else [c]

/-- The fields of the reply to a splitting probe. -/
def fields? (reply : Text) : Except Failure (List Text) :=
  if reply.getLast? = some '\x00' then
    match Text.splitOn '\x00' reply.dropLast with
    | first :: fields =>
      if first = marker then .ok fields else .error (.stuck (.missingMarker reply))
    | [] => .error (.stuck (.missingMarker reply))
  else .error (.stuck (.unterminatedReply reply))

/-- The value in the reply to an assigning probe. -/
def value? (reply : Text) : Except Failure Text :=
  if marker.isPrefixOf reply then .ok (reply.drop marker.length)
  else .error (.stuck (.malformedReply reply))

/-- The characters that end a token where nothing is open. -/
def endsToken (c : Char) : Bool :=
  Text.isBlank c || c ∈ [';', '&', '|', '<', '>', '(', ')']

/-- Whether the rest of a text stays within one token, when a quotation may be open and `depth`
brackets of expansions are. -/
def isTokenFrom (quotation : Option Char) (depth : Nat) : Text → Bool
  | [] => true
  | c :: rest =>
    if quotation = some '\'' then isTokenFrom (if c = '\'' then none else quotation) depth rest
    else if c = '\\' then
      match rest with
      | [] => true
      | _ :: rest => isTokenFrom quotation depth rest
    else if c = '"' then isTokenFrom (if quotation.isSome then none else some '"') depth rest
    else if quotation = none ∧ c = '\'' then isTokenFrom (some '\'') depth rest
    else if c = '$' then
      match rest with
      | [] => true
      | d :: after =>
        if d = '{' ∨ d = '(' then isTokenFrom quotation (depth + 1) after
        else isTokenFrom quotation depth (d :: after)
    else if (c = '{' ∨ c = '(') ∧ 0 < depth then isTokenFrom quotation (depth + 1) rest
    else if (c = '}' ∨ c = ')') ∧ 0 < depth then isTokenFrom quotation (depth - 1) rest
    else if quotation = none ∧ depth = 0 ∧ endsToken c then false
    else isTokenFrom quotation depth rest

/-- Whether the interpreter would read a text as one token behind an assignment. -/
def isSingleToken (s : Text) : Bool := isTokenFrom none 0 s

/-- Whether a body has the line that would end it. -/
def hasDelimiter (body : Text) : Bool := body.lines.contains delimiter

/-- Whether a body lacks a newline at its end. -/
def needsNewline (body : Text) : Bool := body != [] && body.getLast? != some '\n'

/-- A body with a newline at its end, if it is not empty. -/
def padded (body : Text) : Text := if needsNewline body then body ++ ['\n'] else body

/-- The text of a body in the reply to its probe. -/
def unpadded (body reply : Text) : Text :=
  if needsNewline body && reply.getLast? = some '\n' then reply.dropLast else reply

/-- Whether a prompt would be changed when it is printed, by the character behind a dollar sign. -/
def expandsInPrompt (c : Char) : Bool :=
  c.isAlphanum ||
    c ∈ ['_', '{', '(', '\'', '"', '@', '*', '#', '?', '-', '$', '!']

/-- Whether a text has a dollar sign with such a character behind it. -/
def hasExpansion : Text → Bool
  | c :: d :: rest => (c = '$' && expandsInPrompt d) || hasExpansion (d :: rest)
  | _ => false

/-- Refuses a prompt that the interpreter could not show as it is. -/
def checkSentinel (sentinel : Text) : Except Failure Unit :=
  if sentinel = [] ∨ sentinel.any (· ∈ ['\n', '\\', '\x60', '\x00']) then
    .error (.early (.unusableSentinel sentinel))
  else if hasExpansion sentinel then .error (.early (.expandableSentinel sentinel))
  else .ok ()

end ShellFold.Probe
