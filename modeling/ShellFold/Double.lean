/-!
# Double precision

Which numbers fit floating-point numbers of double precision, whose significand has 53 bits and
whose exponent is at most `maxExponent`. `Double.round` is the nearest of them to a natural number,
as far as the significand goes; `Double.overflows m e` says that `m * 10 ^ e` is too large for all
of them. The bounds by which it spares itself huge powers change nothing (`overflows_ofNat`,
`overflows_negSucc`).
-/

set_option autoImplicit false

namespace ShellFold.Double

/-- The greatest exponent: finite numbers lie below `2 ^ (maxExponent + 1)`. -/
def maxExponent : Nat := 1023

/-- The least number that is too large: halfway from the greatest finite one to the next power of
two. -/
def limit : Nat := Nat.pow 2 (maxExponent + 1) - Nat.pow 2 (maxExponent - 53)

/-- The number with a significand of 53 bits that is nearest to `n`; of two that are equally near,
the one whose significand is even. -/
def round (n : Nat) : Nat :=
  let unit := Nat.pow 2 (n.log2 - 52)
  let significand := n / unit
  let rest := n % unit
  if 2 * rest < unit ∨ (2 * rest = unit ∧ significand % 2 = 0) then significand * unit
  else (significand + 1) * unit

/-- Whether `m * 10 ^ e` is too large for double precision. -/
def overflows (m : Nat) : Int → Bool
  | .ofNat k => m ≠ 0 && (maxExponent < m.log2 + 3 * k || limit ≤ m * Nat.pow 10 k)
  | .negSucc k => maxExponent + 3 * (k + 1) ≤ m.log2 && limit * Nat.pow 10 (k + 1) ≤ m

-- Powers of this size stay as they are written.
attribute [local irreducible] maxExponent

/-- A number of up to 53 bits is its own nearest. -/
theorem round_eq_self {n : Nat} (h : n < Nat.pow 2 53) : round n = n := by
  have hlog : n.log2 - 52 = 0 := by
    by_cases hn : n = 0
    · simp [hn]
    · have := (Nat.log2_lt hn).2 h
      omega
  simp [round, hlog, Nat.mod_one]

theorem two_pow_le_ten_pow (k : Nat) : Nat.pow 2 (3 * k) ≤ Nat.pow 10 k := by
  rw [Nat.pow_eq, Nat.pow_eq, Nat.pow_mul]
  exact Nat.pow_le_pow_left (by decide) k

theorem two_pow_le_limit : Nat.pow 2 maxExponent ≤ limit := by
  have := Nat.pow_le_pow_right (n := 2) (by decide) (Nat.sub_le maxExponent 53)
  rw [limit, Nat.pow_eq, Nat.pow_eq, Nat.pow_eq, Nat.pow_succ]
  omega

theorem limit_le_two_pow : limit ≤ Nat.pow 2 (maxExponent + 1) := Nat.sub_le ..

theorem limit_pos : 0 < limit :=
  Nat.lt_of_lt_of_le (Nat.two_pow_pos maxExponent) two_pow_le_limit

theorem overflows_ofNat (m k : Nat) :
    overflows m (.ofNat k) = true ↔ limit ≤ m * Nat.pow 10 k := by
  by_cases hm : m = 0
  · simp [overflows, hm, Nat.not_le.2 limit_pos]
  · have large (h : maxExponent < m.log2 + 3 * k) : limit ≤ m * Nat.pow 10 k := by
      refine Nat.le_trans limit_le_two_pow ?_
      refine Nat.le_trans (Nat.pow_le_pow_right (by decide) h) ?_
      rw [Nat.pow_add]
      exact Nat.mul_le_mul (Nat.log2_self_le hm) (two_pow_le_ten_pow k)
    simp only [overflows, Bool.and_eq_true, Bool.or_eq_true, decide_eq_true_eq, ne_eq]
    exact ⟨fun h => h.2.elim large id, fun h => ⟨hm, .inr h⟩⟩

theorem overflows_negSucc (m k : Nat) :
    overflows m (.negSucc k) = true ↔ limit * Nat.pow 10 (k + 1) ≤ m := by
  simp only [overflows, Bool.and_eq_true, decide_eq_true_eq, and_iff_right_iff_imp]
  intro h
  have hm : m ≠ 0 := by
    have := Nat.mul_pos limit_pos (Nat.pow_pos (n := k + 1) (by decide : 0 < 10))
    rintro rfl
    exact Nat.not_le.2 this h
  refine (Nat.le_log2 hm).2 (Nat.le_trans ?_ h)
  rw [Nat.pow_add]
  exact Nat.mul_le_mul two_pow_le_limit (two_pow_le_ten_pow _)

end ShellFold.Double
