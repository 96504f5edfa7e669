import ShellFold.Mode
import ShellFold.Text.Display
import ShellFold.Text.Duration
import ShellFold.Tree.Kind

/-!
# Failures

Why a command is left as it is. The first four kinds are expected outcomes: the command was
broken before anything was expanded (`Early`), expanding it could have an effect or depend on
one (`Impure`), it uses a construct that is not supported (`Unsupported`), or the interpreter's
answer made no sense (`Stuck`). The last kind (`Io`) means that the oracle itself broke.

Each failure is a cause; its wording is `Failure.reason`, and `Failure.message` puts the kind in
front of it.
-/

set_option autoImplicit false

namespace ShellFold

/-- The answer of an interpreter, or the use made of an oracle, was not as expected. -/
inductive Stuck
  | deleteCharacter
  | unmatchedLeave
  | notOneWord
  | resultCount (mode : Mode) (text : Text) (count : Nat)
  | desynchronized
  | malformedReply (reply : Text)
  | unterminatedReply (reply : Text)
  | missingMarker (reply : Text)
  | ambiguousTarget (word : Text)
  | noPromptWithin (millis : Nat)
  | invalidEncoding
  | other (reason : Text)
  deriving DecidableEq, Repr

/-- A condition for expanding anything was not met. -/
inductive Early
  | invalidName (name : Text)
  | unparsableStatement (statement : Text)
  | unsupportedStatement (statement : Text)
  | unterminatedSingleQuote
  | unterminatedDoubleQuote
  | unterminatedBrace
  | unquotable (literal : Text)
  | oracleClosed
  | sessionClosed
  | promptNeverShown (cause : Stuck)
  | delimiterInBody
  | notSingleWord (text : Text)
  | unusableSentinel (sentinel : Text)
  | expandableSentinel (sentinel : Text)
  | optionEnabled (flag : Char)
  deriving DecidableEq, Repr

/-- The construct may have an effect, or depends on state that is not known. -/
inductive Impure
  | readonlyAssignment (name : Text)
  | backtick
  | commandSubstitution
  | processSubstitution
  | arraySyntax
  | assignmentInExpansion
  | transformation
  | directoryStack (sign : Option Char)
  | processState (name : Text)
  | runtimeDescriptor (name : Text)
  | descriptorDuplication
  | descriptorClose
  | inseparableAssignment
  | prefixedCommand
  | conditionalAssignment
  | unrecordable (name : Text)
  | other (reason : Text)
  deriving DecidableEq, Repr

/-- The construct is understood and not supported. -/
inductive Unsupported
  | globCharacter (c : Char)
  | fieldSeparators
  | bracketGlob
  | arithmetic
  | dollarQuote (quote : Char)
  | lengthOfList
  | expansion (body : Text)
  | substring (body : Text)
  | operatorOnList (name : Text)
  | shellName
  | positional (index : Text)
  | parameter (name : Text)
  | globInValue
  | homeUnset
  | userTilde (word : Text)
  | binding (kind : Kind)
  deriving DecidableEq, Repr

/-- Something outside the program did not work. -/
inductive Io
  | missingFile (path : Text)
  | missingDirectory (path : Text)
  | missingShell (shell : Text)
  | terminalClosed
  deriving DecidableEq, Repr

/-- Why an expansion was not carried out. -/
inductive Failure
  | early (cause : Early)
  | impure (cause : Impure)
  | unimplemented (cause : Unsupported)
  | stuck (cause : Stuck)
  | io (cause : Io)
  deriving DecidableEq, Repr

/-- The wording of a cause. -/
def Stuck.reason : Stuck → Text
  | deleteCharacter => "DEL character in word".toList
  | unmatchedLeave => "leave_scope without a matching enter_scope".toList
  | notOneWord => "single-word expansion did not yield one word".toList
  | resultCount mode text count =>
    mode.name.toList ++ " expansion of ".toList ++ text.display ++ " produced ".toList
      ++ Nat.toDigits 10 count ++ " results".toList
  | desynchronized => "session desynchronized by an earlier failure".toList
  | malformedReply reply => "malformed probe reply ".toList ++ reply.visible
  | unterminatedReply reply => "unterminated probe reply ".toList ++ reply.visible
  | missingMarker reply => "probe reply missing marker: ".toList ++ reply.visible
  | ambiguousTarget word => "ambiguous redirect ".toList ++ word
  | noPromptWithin millis => "no prompt within ".toList ++ Text.duration millis
  | invalidEncoding => "non-UTF-8 interpreter output".toList
  | other reason => reason

def Early.reason : Early → Text
  | invalidName name => "invalid variable name ".toList ++ name.display
  | unparsableStatement statement => "unparsable statement ".toList ++ statement.display
  | unsupportedStatement statement => "unsupported statement ".toList ++ statement.display
  | unterminatedSingleQuote => "unterminated single quote".toList
  | unterminatedDoubleQuote => "unterminated double quote".toList
  | unterminatedBrace => "unterminated $\x7b".toList
  | unquotable literal =>
    "cannot quote literal ".toList ++ literal.display
      ++ ": cannot shell-quote string containing nul byte".toList
  | oracleClosed => "oracle session is closed".toList
  | sessionClosed => "session is closed".toList
  | promptNeverShown cause =>
    "interpreter never showed the sentinel prompt: ".toList ++ cause.reason
  | delimiterInBody => "here-document body contains the probe delimiter".toList
  | notSingleWord text => text.display ++ " is not a single shell word".toList
  | unusableSentinel sentinel => "unusable sentinel ".toList ++ sentinel.display
  | expandableSentinel sentinel =>
    "sentinel ".toList ++ sentinel.display ++ " would be expanded".toList
  | optionEnabled flag => "shell option -".toList ++ flag :: " is enabled".toList

def Impure.reason : Impure → Text
  | readonlyAssignment name => "assignment to readonly variable ".toList ++ name
  | backtick => "backtick command substitution".toList
  | commandSubstitution => "command substitution $(".toList
  | processSubstitution => "process substitution".toList
  | arraySyntax => "array syntax".toList
  | assignmentInExpansion => "assignment inside expansion".toList
  | transformation => "parameter transformation $\x7b...@...\x7d".toList
  | directoryStack none => "directory stack tilde".toList
  | directoryStack (some sign) => "directory stack tilde ~".toList ++ [sign]
  | processState name => '$' :: name ++ " depends on process state".toList
  | runtimeDescriptor name =>
    "redirection through run-time descriptor \x7b".toList ++ name ++ ['}']
  | descriptorDuplication => "descriptor duplication depends on open descriptors".toList
  | descriptorClose => "descriptor close depends on open descriptors".toList
  | inseparableAssignment =>
    "command assignments cannot be separated from argument evaluation".toList
  | prefixedCommand => "prefix assignment applies to one command only".toList
  | conditionalAssignment => "assignment under conditional control flow".toList
  | unrecordable name =>
    "assignment to ".toList ++ name ++ " cannot be mirrored into this backend".toList
  | other reason => reason

def Unsupported.reason : Unsupported → Text
  | globCharacter c => "possible glob character '".toList ++ [c, '\'']
  | fieldSeparators => "non-whitespace IFS".toList
  | bracketGlob => "bracket glob".toList
  | arithmetic => "arithmetic expansion".toList
  | dollarQuote quote => '$' :: quote :: "...".toList ++ quote :: " quoting".toList
  | lengthOfList => "length of $@".toList
  | expansion body => "parameter expansion $\x7b".toList ++ body ++ ['}']
  | substring body => "substring expansion $\x7b".toList ++ body ++ ['}']
  | operatorOnList name => "operator on $".toList ++ name
  | shellName => "$0".toList
  | positional index => "positional $".toList ++ index
  | parameter name => "parameter $".toList ++ name
  | globInValue => "glob characters in unquoted expansion".toList
  | homeUnset => "tilde expansion with HOME unset".toList
  | userTilde word => "user tilde ".toList ++ word
  | binding kind => kind.name.toList ++ " introduces a binding the oracle cannot track".toList

def Io.reason : Io → Text
  | missingFile path => "cannot read ".toList ++ path
  | missingDirectory path => "no directory ".toList ++ path
  | missingShell shell => "cannot start ".toList ++ shell
  | terminalClosed => "interpreter closed its terminal".toList

namespace Failure

/-- The wording of a failure, without its kind. -/
def reason : Failure → Text
  | early cause => cause.reason
  | impure cause => cause.reason
  | unimplemented cause => cause.reason
  | stuck cause => cause.reason
  | io cause => cause.reason

/-- The kind of a failure, as documents name it. -/
def kind : Failure → String
  | early _ => "early_error"
  | impure _ => "impure_expansion"
  | unimplemented _ => "unimplemented"
  | stuck _ => "stuck_expansion"
  | io _ => "io"

/-- The kind of a failure, as messages begin with it. -/
def heading : Failure → String
  | early _ => "early error: "
  | impure _ => "impure expansion: "
  | unimplemented _ => "unimplemented: "
  | stuck _ => "stuck expansion: "
  | io _ => "oracle I/O failure: "

/-- The full wording of a failure. -/
def message (e : Failure) : Text := e.heading.toList ++ e.reason

/-- Whether the command can simply be left as it is, the oracle being sound. -/
def isExpected : Failure → Bool
  | io _ => false
  | _ => true

end Failure

end ShellFold
