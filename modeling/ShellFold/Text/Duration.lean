import ShellFold.Text.Basic

/-!
# Durations in messages

A duration of whole milliseconds reads as milliseconds below one second and as seconds with as
many of three decimals as it needs from there on.
-/

set_option autoImplicit false

namespace ShellFold.Text

/-- The decimal digits of a number, with zeros in front up to a width. -/
def padded (width n : Nat) : Text :=
  let digits := Nat.toDigits 10 n
  List.replicate (width - digits.length) '0' ++ digits

/-- The decimals of a number of thousandths, without zeros at the end. -/
def thousandths (n : Nat) : Text :=
  ((padded 3 n).reverse.dropWhile (· = '0')).reverse

/-- A number of milliseconds as a duration. -/
def duration (millis : Nat) : Text :=
  if millis = 0 then ['0', 'n', 's']
  else if millis < 1000 then Nat.toDigits 10 millis ++ ['m', 's']
  else
    let seconds := Nat.toDigits 10 (millis / 1000)
    match thousandths (millis % 1000) with
    | [] => seconds ++ ['s']
    | decimals => seconds ++ '.' :: decimals ++ ['s']

end ShellFold.Text
