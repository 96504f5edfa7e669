import ShellFold.Text.Blank

/-!
# Text in messages

A message quotes the text it speaks of: `display` puts it between double quotes and escapes what
would end the quotation or not be seen. `visible` is the lighter form for transcripts, which only
makes NUL readable.
-/

set_option autoImplicit false

namespace ShellFold.Text

/-- A code point in lower-case hexadecimal, without padding. -/
def hex (n : Nat) : Text := (Nat.toDigits 16 n).map Char.toLower

/-- One character of a quoted text. -/
def displayChar (c : Char) : Text :=
  if c = '"' then ['\\', '"']
  else if c = '\\' then ['\\', '\\']
  else if c = '\n' then ['\\', 'n']
  else if c = '\r' then ['\\', 'r']
  else if c = '\t' then ['\\', 't']
  else if c = '\x00' then ['\\', '0']
  else if isInvisible c then ['\\', 'u', '{'] ++ hex c.toNat ++ ['}']
  else [c]

/-- A text between double quotes, with quotes, backslashes and invisible characters escaped. -/
def display (s : Text) : Text := '"' :: s.flatMap displayChar ++ ['"']

/-- A text with each NUL spelled out. -/
def visible (s : Text) : Text :=
  s.flatMap fun c => if c = '\x00' then ['<', 'N', 'U', 'L', '>'] else [c]

end ShellFold.Text
