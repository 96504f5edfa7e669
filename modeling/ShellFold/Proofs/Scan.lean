import ShellFold.Proofs.Attempt
import ShellFold.Scan

/-!
# What the scanner accepts

To expand a text that substitutes a command (`Text.Substitutes`) is to run the command. The pass
over the characters rejects a text at its first backtick and at its first open parenthesis
(`Scanner.notMem_of_foldlM`), so what it lets through runs nothing. A text that begins as an
arithmetic expansion and assigns nothing is accepted before that pass, whatever follows:
`scan_accepts_substitution_iff` says which accepted texts substitute a command.
-/

set_option autoImplicit false

namespace ShellFold

/-- The text holds a backtick, a process substitution, or a `$(` that does not begin an arithmetic
expansion. -/
def Text.Substitutes (s : Text) : Prop :=
  '\x60' ∈ s ∨ ['<', '('] <:+: s ∨ ['>', '('] <:+: s ∨
    ∃ before after, s = before ++ '$' :: '(' :: after ∧ ¬ ['('] <+: after

namespace Text

variable {s : Text}

theorem Substitutes.mem (h : s.Substitutes) : '\x60' ∈ s ∨ '(' ∈ s := by
  rcases h with h | ⟨before, after, rfl⟩ | ⟨before, after, rfl⟩ | ⟨before, after, rfl, -⟩
  · exact .inl h
  · exact .inr (by simp)
  · exact .inr (by simp)
  · exact .inr (by simp)

/-- A character in front of a text joins no construct of it, unless it makes up one of the first
two characters. -/
theorem substitutes_cons {c : Char}
    (hc : c ≠ '\x60') (hangle : c = '<' ∨ c = '>' → ¬ ['('] <+: s)
    (hdollar : c = '$' → ¬ ['('] <+: s ∨ ['(', '('] <+: s) :
    Substitutes (c :: s) ↔ s.Substitutes := by
  have hbrackets : ∀ angle : Char, angle = '<' ∨ angle = '>' →
      ([angle, '('] <:+: c :: s ↔ [angle, '('] <:+: s) := by
    intro angle hangles
    rw [List.infix_cons_iff, or_iff_right]
    intro hprefix
    obtain ⟨rfl, hs⟩ := List.cons_prefix_cons.1 hprefix
    exact hangle hangles hs
  have hcommand : (∃ before after, c :: s = before ++ '$' :: '(' :: after ∧ ¬ ['('] <+: after) ↔
      ∃ before after, s = before ++ '$' :: '(' :: after ∧ ¬ ['('] <+: after := by
    constructor
    · rintro ⟨_ | ⟨_, before⟩, after, heq, hafter⟩
      · rw [List.nil_append, List.cons.injEq] at heq
        obtain ⟨rfl, rfl⟩ := heq
        rcases hdollar rfl with hno | htwo
        · exact absurd ⟨after, rfl⟩ hno
        · exact absurd (List.cons_prefix_cons.1 htwo).2 hafter
      · rw [List.cons_append, List.cons.injEq] at heq
        exact ⟨before, after, heq.2, hafter⟩
    · rintro ⟨before, after, rfl, hafter⟩
      exact ⟨c :: before, after, rfl, hafter⟩
  rw [Substitutes, Substitutes, List.mem_cons, or_iff_right (Ne.symm hc),
    hbrackets '<' (.inl rfl), hbrackets '>' (.inr rfl), hcommand]

/-- The opening of an arithmetic expansion substitutes nothing. -/
theorem substitutes_arithmetic (rest : Text) :
    Substitutes (['$', '(', '('] ++ rest) ↔ rest.Substitutes := by
  show Substitutes ('$' :: '(' :: '(' :: rest) ↔ _
  rw [substitutes_cons (by decide) (by simp) (by simp),
    substitutes_cons (by decide) (by simp) (by simp),
    substitutes_cons (by decide) (by simp) (by simp)]

end Text

namespace Scanner

/-- The pass over a text ends at a backtick and at an open parenthesis. -/
theorem notMem_of_foldlM {s : Text} {scanner last : Scanner}
    (h : s.foldlM step scanner = .ok last) : '\x60' ∉ s ∧ '(' ∉ s := by
  induction s generalizing scanner with
  | nil => exact ⟨List.not_mem_nil, List.not_mem_nil⟩
  | cons c s ih =>
    rw [List.foldlM_cons] at h
    obtain ⟨next, hnext, h⟩ := bind_eq_ok.1 h
    obtain ⟨hbacktick, hparenthesis⟩ := ih h
    have hoffence : scanner.offence? c = none := by
      unfold step at hnext
      split at hnext
      · cases hnext
      · assumption
    rw [List.mem_cons, List.mem_cons, not_or, not_or]
    refine ⟨⟨?_, hbacktick⟩, ?_, hparenthesis⟩
    · rintro rfl
      simp [offence?] at hoffence
    · rintro rfl
      simp [offence?] at hoffence

end Scanner

theorem isPureArithmetic_iff {s : Text} :
    isPureArithmetic s = true ↔ ∃ rest, s = ['$', '(', '('] ++ rest ∧ '=' ∉ rest := by
  rw [isPureArithmetic, Bool.and_eq_true, List.isPrefixOf_iff_prefix]
  constructor
  · rintro ⟨⟨rest, rfl⟩, hassigns⟩
    exact ⟨rest, rfl, by simpa using hassigns⟩
  · rintro ⟨rest, rfl, hassigns⟩
    exact ⟨⟨rest, rfl⟩, by simpa using hassigns⟩

theorem scan_of_isPureArithmetic {s : Text} (h : isPureArithmetic s = true) :
    scan s = .ok .expand := if_pos h

theorem notMem_of_scan {s : Text} (hscan : (scan s).isOk = true)
    (h : isPureArithmetic s = false) : '\x60' ∉ s ∧ '(' ∉ s := by
  rw [scan, if_neg (by simp [h])] at hscan
  rcases hfold : s.foldlM Scanner.step {} with e | last
  · rw [hfold] at hscan
    cases hscan
  · exact Scanner.notMem_of_foldlM hfold

/-- **The texts that are accepted and substitute a command.** They begin as an arithmetic expansion
that assigns nothing, and the command is substituted behind its two parentheses; every other text
that is accepted has no backtick, no process substitution, and no `$(` but that of `$((`. -/
theorem scan_accepts_substitution_iff (s : Text) :
    (scan s).isOk = true ∧ s.Substitutes ↔
      ∃ rest, s = ['$', '(', '('] ++ rest ∧ '=' ∉ rest ∧ rest.Substitutes := by
  constructor
  · rintro ⟨hscan, hsubstitutes⟩
    cases hpure : isPureArithmetic s with
    | false =>
      obtain ⟨hbacktick, hparenthesis⟩ := notMem_of_scan hscan hpure
      exact absurd hsubstitutes.mem (by simp [hbacktick, hparenthesis])
    | true =>
      obtain ⟨rest, rfl, hassigns⟩ := isPureArithmetic_iff.1 hpure
      exact ⟨rest, rfl, hassigns, (Text.substitutes_arithmetic rest).1 hsubstitutes⟩
  · rintro ⟨rest, rfl, hassigns, hsubstitutes⟩
    have hpure : isPureArithmetic (['$', '(', '('] ++ rest) = true :=
      isPureArithmetic_iff.2 ⟨rest, rfl, hassigns⟩
    refine ⟨?_, (Text.substitutes_arithmetic rest).2 hsubstitutes⟩
    rw [scan_of_isPureArithmetic hpure]
    rfl

example : scan "$((\x60id\x60))".toList = .ok .expand := by cbv

end ShellFold
