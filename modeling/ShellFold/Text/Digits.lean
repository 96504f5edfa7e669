import ShellFold.Text.Basic

/-!
# Digits

The numbers that digits spell: `Text.ofDigits` in base ten, `Text.hexDigit?` for one digit in base
sixteen. `Text.readDigits?` takes a run of digits from the front of a text, `Text.readWidth?` a
number of a fixed width.
-/

set_option autoImplicit false

namespace ShellFold.Text

/-- The value of a hexadecimal digit. -/
def hexDigit? (c : Char) : Option Nat :=
  if c.isDigit then some (c.toNat - 48)
  else if 'a' ≤ c ∧ c ≤ 'f' then some (c.toNat - 87)
  else if 'A' ≤ c ∧ c ≤ 'F' then some (c.toNat - 55)
  else none

/-- A number with a further decimal digit. -/
def appendDigit (n : Nat) (c : Char) : Nat := 10 * n + (c.toNat - 48)

/-- The number of a run of digits. -/
def ofDigits (digits : Text) : Nat := digits.foldl appendDigit 0

/-- The digits at the front of a text, of which there must be one. -/
def readDigits? (s : Text) : Option (Text × Text) :=
  match s.takeWhile Char.isDigit with
  | [] => none
  | digits => some (digits, s.dropWhile Char.isDigit)

/-- A number of exactly `width` digits at the front of a text. -/
def readWidth? (width : Nat) (s : Text) : Option (Nat × Text) :=
  let digits := s.take width
  if digits.length = width ∧ digits.all Char.isDigit then some (ofDigits digits, s.drop width)
  else none

/-- The text behind a character that must be at its front. -/
def expect? (c : Char) : Text → Option Text
  | [] => none
  | d :: rest => if d = c then some rest else none

/-- The digits of two runs, one behind the other. -/
theorem ofDigits_append (a b : Text) : ofDigits (a ++ b) = b.foldl appendDigit (ofDigits a) :=
  List.foldl_append

end ShellFold.Text
