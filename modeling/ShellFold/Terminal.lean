import ShellFold.Text.Basic

/-!
# Terminals

The output of an interpreter as it is read: a stream of bytes that is cut at prompts, and what
happens when it runs dry. `Terminal.await?` takes everything up to the first prompt and the prompt
itself; `decodeReply?` reads bytes as text, with line ends normalised.
-/

set_option autoImplicit false

namespace ShellFold

/-- What a reader finds behind the last byte of a terminal. -/
inductive Ending
  /-- Nothing comes any more. -/
  | silent
  /-- The interpreter has closed the terminal. -/
  | closed
  deriving DecidableEq, Repr

/-- The output of an interpreter that has not been read. -/
structure Terminal where
  unread : List UInt8
  ending : Ending := .silent
  deriving DecidableEq, Repr

def Text.bytes (s : Text) : List UInt8 := (String.ofList s).toUTF8.toList

def Text.ofBytes? (bytes : List UInt8) : Option Text :=
  (String.fromUTF8? ⟨bytes.toArray⟩).map String.toList

/-- The text of a reply: a carriage return in front of a newline is not part of it. -/
def decodeReply? (bytes : List UInt8) : Option Text := (Text.ofBytes? bytes).map Text.joinReturns

/-- The bytes in front of the first prompt, and the terminal behind that prompt. -/
def Terminal.await? (terminal : Terminal) (prompt : Text) : Option (List UInt8 × Terminal) :=
  (cutAt? prompt.bytes terminal.unread).map fun (reply, rest) =>
    (reply, { terminal with unread := rest })

end ShellFold
