import ShellFold.Text.Basic
import ShellFold.Text.Invisible

/-!
# Blanks and invisible characters

Two properties of characters: `Text.isBlank`, the White_Space property, by which statements are
trimmed, and `Text.isInvisible`, the characters a message writes as an escape because a reader
could not see them.
-/

set_option autoImplicit false

namespace ShellFold.Text

/-- The ranges of code points with the White_Space property. -/
def blankRanges : List (Nat × Nat) :=
  [(0x09, 0x0d), (0x20, 0x20), (0x85, 0x85), (0xa0, 0xa0), (0x1680, 0x1680), (0x2000, 0x200a),
    (0x2028, 0x2029), (0x202f, 0x202f), (0x205f, 0x205f), (0x3000, 0x3000)]

/-- Whether a code point lies in one of the ranges. -/
def inRanges (ranges : List (Nat × Nat)) (c : Char) : Bool :=
  ranges.any fun (low, high) => low ≤ c.toNat && c.toNat ≤ high

def isBlank (c : Char) : Bool := inRanges blankRanges c

/-- Whether a character leaves no mark of its own on the page. -/
def isInvisible (c : Char) : Bool := inRanges invisibleRanges c

/-- Core's white space is blank. -/
theorem isBlank_of_isWhitespace {c : Char} (h : c.isWhitespace = true) : isBlank c = true := by
  simp only [Char.isWhitespace, Bool.or_eq_true, decide_eq_true_eq] at h
  obtain ((rfl | rfl) | rfl) | rfl := h <;> decide

/-- The text without the blanks at its two ends. -/
def trim (s : Text) : Text := ((s.dropWhile isBlank).reverse.dropWhile isBlank).reverse

end ShellFold.Text
