import ShellFold.Text.Basic

/-!
# Variable names

A shell variable is named by an ASCII letter or underscore followed by letters, digits and
underscores.
-/

set_option autoImplicit false

namespace ShellFold.Text

/-- The characters that can begin a name. -/
def isNameStart (c : Char) : Bool := c.isAlpha || c = '_'

/-- The characters that can continue a name. -/
def isNameChar (c : Char) : Bool := c.isAlphanum || c = '_'

/-- Whether a text is a valid variable name. -/
def isName : Text → Bool
  | [] => false
  | c :: rest => isNameStart c && rest.all isNameChar

theorem toNat_of_isUpper {c : Char} (h : c.isUpper = true) : 65 ≤ c.toNat ∧ c.toNat ≤ 90 := by
  have h : 'A'.val ≤ c.val ∧ c.val ≤ 'Z'.val := of_decide_eq_true h
  exact ⟨UInt32.le_iff_toNat_le.1 h.1, UInt32.le_iff_toNat_le.1 h.2⟩

theorem toNat_of_isLower {c : Char} (h : c.isLower = true) : 97 ≤ c.toNat ∧ c.toNat ≤ 122 := by
  obtain ⟨low, high⟩ := Bool.and_eq_true_iff.1 h
  exact ⟨UInt32.le_iff_toNat_le.1 (of_decide_eq_true low),
    UInt32.le_iff_toNat_le.1 (of_decide_eq_true high)⟩

theorem toNat_of_isAlpha {c : Char} (h : c.isAlpha = true) : 65 ≤ c.toNat ∧ c.toNat ≤ 122 := by
  rcases Bool.or_eq_true_iff.1 h with h | h
  · have := toNat_of_isUpper h
    omega
  · have := toNat_of_isLower h
    omega

theorem toNat_of_isDigit {c : Char} (h : c.isDigit = true) : 48 ≤ c.toNat ∧ c.toNat ≤ 57 :=
  Char.isDigit_iff_toNat.1 h

theorem toNat_of_isAlphanum {c : Char} (h : c.isAlphanum = true) :
    48 ≤ c.toNat ∧ c.toNat ≤ 122 := by
  rcases Bool.or_eq_true_iff.1 h with h | h
  · have := toNat_of_isAlpha h
    omega
  · have := toNat_of_isDigit h
    omega

/-- What can begin a name can continue it. -/
theorem isNameChar_of_isNameStart {c : Char} (h : isNameStart c = true) : isNameChar c = true := by
  simp only [isNameStart, isNameChar, Char.isAlphanum, Bool.or_eq_true] at h ⊢
  exact h.imp (.inl ·) id

/-- A name holds name characters only. -/
theorem isNameChar_of_mem {name : Text} (h : isName name = true) {c : Char} (hc : c ∈ name) :
    isNameChar c = true := by
  cases name with
  | nil => simp at hc
  | cons d rest =>
    simp only [isName, Bool.and_eq_true, List.all_eq_true] at h
    obtain rfl | hc := List.mem_cons.1 hc
    · exact isNameChar_of_isNameStart h.1
    · exact h.2 c hc

/-- A character of a kind is none of those that are not of the kind. -/
theorem notMem_of_kind {p : Char → Bool} {c : Char} (hc : p c = true) {l : List Char}
    (hl : l.any p = false) : c ∉ l := by
  intro hmem
  rw [List.any_eq_true.2 ⟨c, hmem, hc⟩] at hl
  cases hl

theorem notMem_of_isName {name : Text} (h : isName name = true) {c : Char}
    (hc : isNameChar c = false) : c ∉ name := by
  intro hmem
  rw [isNameChar_of_mem h hmem] at hc
  cases hc

end ShellFold.Text
