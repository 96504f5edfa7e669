import ShellFold.Proofs.Interpreter.Operation

/-!
# Commands as the interpreter receives them

Where no context is open, a command is written as it is. The loop of a context reads one line and
takes the escapes out of it (`Probe.unescape`), so a command is written there on one line, from
which the loop recovers it (`received_line`). A request that can make its command has this line
written as long as the interpreter has not been given up (`Request.sent_attempt`).
-/

set_option autoImplicit false

namespace ShellFold

open Attempt

namespace Probe

/-- A line as the loop of a context takes it, from left to right: two backslashes are one, and a
backslash in front of an `n` is a newline. -/
def unescape : Text → Text
  | '\\' :: '\\' :: rest => '\\' :: unescape rest
  | '\\' :: 'n' :: rest => '\n' :: unescape rest
  | c :: rest => c :: unescape rest
  | [] => []

theorem unescape_cons {c : Char} (hc : c ≠ '\\') (rest : Text) :
    unescape (c :: rest) = c :: unescape rest := by
  rw [unescape]
  · exact fun _ h => absurd h hc
  · exact fun _ h => absurd h hc

/-- Escaping is undone. -/
theorem unescape_escape (command : Text) : unescape (escape command) = command := by
  induction command with
  | nil => rfl
  | cons c command ih =>
    rw [escape, List.flatMap_cons, ← escape]
    split
    · next hc => rw [hc, List.cons_append, List.singleton_append, unescape, ih]
    · next hc =>
      split
      · next hnewline => rw [hnewline, List.cons_append, List.singleton_append, unescape, ih]
      · rw [List.singleton_append, unescape_cons hc, ih]

theorem newline_notMem_escape (command : Text) : '\n' ∉ escape command := by
  intro h
  obtain ⟨c, -, hc⟩ := List.mem_flatMap.1 h
  split at hc
  · exact absurd hc (by decide)
  · split at hc
    · exact absurd hc (by decide)
    · next hnewline => exact hnewline (List.mem_singleton.1 hc).symm

end Probe

namespace Interpreter

/-- The line by which a command is given to an interpreter. -/
def line (it : Interpreter) (command : Text) : Text :=
  if it.depth = 0 then command else Probe.escape command

/-- The command that an interpreter has been given by a line. -/
def received (it : Interpreter) (line : Text) : Text :=
  if it.depth = 0 then line else Probe.unescape line

theorem received_line (it : Interpreter) (command : Text) :
    it.received (it.line command) = command := by
  unfold received line
  split
  · rfl
  · exact Probe.unescape_escape command

/-- A request that can make its command has it written, whatever the answer is. -/
theorem Request.sent_attempt {request : Request} {it : Interpreter} {command : Text}
    {script : Option Script} (hsound : it.poisoned = false)
    (hcommand : request.command it.depth = .ok (command, script)) :
    (request.attempt.outcome it).2.sent =
      it.sent ++ [({ line := it.line command, script } : Sent)] := by
  have heffect := request.effect it
  generalize request.attempt.outcome it = outcome at heffect
  obtain ⟨result, after⟩ := outcome
  cases heffect with
  | withheld hwithheld =>
    rw [hwithheld] at hcommand
    cases hcommand
  | exchanged hsent hexchange =>
    rw [hsent] at hcommand
    cases hcommand
    cases hexchange with
    | refused hpoisoned => cases hpoisoned.symm.trans hsound
    | closed | answered | garbled | dry => rfl

end Interpreter

end ShellFold
