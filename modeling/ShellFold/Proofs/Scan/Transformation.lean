import ShellFold.Proofs.Scan.Offence

/-!
# Transformations behind nested expansions

An `@` in an expansion in braces transforms the value, unless `{` or `[` stands right in front of
it, and some transformations run commands. Expansions nest (`Text.openExpansions` counts those that
are open), but the scanner only remembers whether a closing brace came after the last opening. So
it refuses such an `@` just where none did: behind an expansion that was closed within another one
the `@` passes as a letter would (`scan_transformation_iff`).
-/

set_option autoImplicit false

namespace ShellFold

namespace Text

/-- The number of expansions that are open behind a text, when so many were open in front of it:
each `${` opens one, and each closing brace closes the innermost one, if there is any. -/
def openExpansionsFrom (depth : Nat) : Text → Nat
  | [] => depth
  | '$' :: '{' :: rest => openExpansionsFrom (depth + 1) rest
  | '}' :: rest => openExpansionsFrom (depth - 1) rest
  | _ :: rest => openExpansionsFrom depth rest

def openExpansions (s : Text) : Nat := s.openExpansionsFrom 0

/-- A closing brace stands behind the last `${` of the text. -/
def ClosesLast (s : Text) : Prop :=
  ∃ outer inner, s = outer ++ '}' :: inner ∧ ¬['$', '{'] <:+: inner

variable {s : Text}

/-- More expansions are open behind a text than in front of it only if it opens some. -/
theorem isInfix_of_lt_openExpansionsFrom {depth : Nat} (h : depth < s.openExpansionsFrom depth) :
    ['$', '{'] <:+: s := by
  fun_induction openExpansionsFrom depth s with
  | case1 depth => exact absurd h (Nat.lt_irrefl _)
  | case2 depth rest => exact ⟨[], rest, rfl⟩
  | case3 depth rest ih => exact (ih (by omega)).trans (List.suffix_cons _ _).isInfix
  | case4 depth c rest _ _ ih => exact (ih h).trans (List.suffix_cons _ _).isInfix

theorem exists_last_opening (h : ['$', '{'] <:+: s) :
    ∃ before inside, s = before ++ '$' :: '{' :: inside ∧ ¬['$', '{'] <:+: inside := by
  induction s with
  | nil => exact absurd (List.infix_nil.1 h) (by decide)
  | cons c s ih =>
    by_cases hrest : ['$', '{'] <:+: s
    · obtain ⟨before, inside, rfl, hinside⟩ := ih hrest
      exact ⟨c :: before, inside, rfl, hinside⟩
    · rcases List.infix_cons_iff.1 h with ⟨inside, heq⟩ | hs
      · obtain ⟨rfl, rfl⟩ := List.cons.inj heq
        exact ⟨[], inside, rfl, fun hinside =>
          hrest (hinside.trans (List.suffix_cons _ _).isInfix)⟩
      · exact absurd hs hrest

/-- In a text with a `${`, either a closing brace stands behind the last one, or some has none
behind it. -/
theorem closesLast_iff (h : ['$', '{'] <:+: s) : s.ClosesLast ↔ ¬s.OpensBrace := by
  constructor
  · rintro ⟨outer, inner, rfl, hinner⟩ ⟨before, inside, heq, hinside⟩
    rcases List.append_eq_append_iff.1 heq with ⟨between, -, hbetween⟩ | ⟨between, -, hbetween⟩
    · cases between with
      | nil => cases hbetween
      | cons c between =>
        obtain ⟨-, rfl⟩ := List.cons.inj hbetween
        exact hinner ⟨between, inside, by simp⟩
    · rcases between with _ | ⟨c, _ | ⟨d, between⟩⟩
      · cases hbetween
      · cases hbetween
      · cases hbetween
        simp at hinside
  · intro hopens
    obtain ⟨before, inside, rfl, hinside⟩ := exists_last_opening h
    have hcloses : '}' ∈ inside := by
      by_contra hnone
      exact hopens ⟨before, inside, rfl, hnone⟩
    obtain ⟨skipped, inner, rfl⟩ := List.append_of_mem hcloses
    refine ⟨before ++ '$' :: '{' :: skipped, inner, by simp, fun hinner => hinside ?_⟩
    exact hinner.trans ⟨skipped ++ ['}'], [], by simp⟩

/-- What begins a text and does not have a character of it ends in front of that character. -/
theorem isPrefix_of_append_cons {begins before after : Text} {c : Char} (hc : c ∉ begins)
    (h : begins <+: before ++ c :: after) : begins <+: before := by
  rcases List.prefix_or_prefix_of_prefix h (List.prefix_append before (c :: after)) with
    hbefore | ⟨more, rfl⟩
  · exact hbefore
  · cases more with
    | nil => simp
    | cons d more =>
      obtain ⟨rfl, -⟩ := List.cons_prefix_cons.1 ((List.prefix_append_right_inj before).1 h)
      simp at hc

end Text

open Scanner (past)

/-- A text is accepted where what stands in front of a character is, the character does not offend,
and the rest passes. -/
theorem isOk_scan_append {before after : Text} {c : Char}
    (harithmetic : ¬isPureArithmetic (before ++ c :: after) = true) :
    (scan (before ++ c :: after)).isOk = true ↔ before.Harmless ∧
      (past before).offence? c = none ∧
      (after.foldlM Scanner.step ((past before).advance c)).isOk = true := by
  rw [scan, if_neg harithmetic, List.foldlM_append]
  rcases before.foldlM_step with ⟨hharmless, hpass⟩ | ⟨e, hfirst, hpass⟩
  · rw [hpass, ok_bind, List.foldlM_cons, Scanner.step, and_iff_right hharmless]
    cases (past before).offence? c with
    | some e => exact iff_of_false Bool.false_ne_true fun h => Option.some_ne_none _ h.1
    | none =>
      rw [ok_bind, and_iff_right rfl]
      cases after.foldlM Scanner.step ((past before).advance c) <;> rfl
  · rw [hpass, error_bind]
    exact iff_of_false Bool.false_ne_true fun h => hfirst.not_harmless h.1

/-- **Where an `@` in an expansion passes.** In a text that does not begin as an arithmetic
expansion, an `@` that lies in an open expansion and has neither `{` nor `[` in front of it is
accepted if and only if a closing brace stands behind the last `${` in front of it, and the text
would be accepted with a letter in its place. -/
theorem scan_transformation_iff {before after : Text}
    (harithmetic : ¬['$', '(', '('] <+: before ++ '@' :: after)
    (hopen : 0 < before.openExpansions) (hlast : ∀ c ∈ before.getLast?, c ≠ '{' ∧ c ≠ '[') :
    (scan (before ++ '@' :: after)).isOk = true ↔
      before.ClosesLast ∧ (scan (before ++ 'x' :: after)).isOk = true := by
  have hat : ¬isPureArithmetic (before ++ '@' :: after) = true := fun h =>
    harithmetic (isPureArithmetic_iff_begins.1 h).1
  have hletter : ¬isPureArithmetic (before ++ 'x' :: after) = true := fun h =>
    harithmetic ((Text.isPrefix_of_append_cons (by decide)
      (isPureArithmetic_iff_begins.1 h).1).trans (List.prefix_append _ _))
  have hpasses : (past before).offence? '@' = none ↔ before.ClosesLast := by
    have hinfix := Text.isInfix_of_lt_openExpansionsFrom hopen
    rw [Text.closesLast_iff hinfix, ← Scanner.inBraces_past]
    simp [Scanner.offence?, Scanner.window_past_ne_opening.2 hlast]
  have hadvance : (past before).advance '@' = (past before).advance 'x' := rfl
  have hnone : (past before).offence? 'x' = none := rfl
  rw [isOk_scan_append hat, isOk_scan_append hletter, hpasses, hadvance, and_iff_right hnone]
  exact and_left_comm

/-- The expansion in a subscript has been closed, so the transformation behind it passes. -/
theorem scan_transformation_iff_of_subscript :
    let before : Text := "$\x7ba[$\x7bi\x7d]".toList
    let after : Text := "P\x7d".toList
    (¬['$', '(', '('] <+: before ++ '@' :: after ∧ 0 < before.openExpansions ∧
        ∀ c ∈ before.getLast?, c ≠ '{' ∧ c ≠ '[') ∧
      (scan (before ++ '@' :: after)).isOk = true ∧
      before.ClosesLast ∧ (scan (before ++ 'x' :: after)).isOk = true := by
  intro before after
  have harithmetic : ¬['$', '(', '('] <+: before ++ '@' :: after := by decide
  have hopen : 0 < before.openExpansions := by decide
  have hlast : ∀ c ∈ before.getLast?, c ≠ '{' ∧ c ≠ '[' := by
    intro c hc
    obtain rfl : ']' = c := Option.some.inj hc
    decide
  have haccepted : (scan (before ++ '@' :: after)).isOk = true := by decide
  exact ⟨⟨harithmetic, hopen, hlast⟩, haccepted,
    (scan_transformation_iff harithmetic hopen hlast).1 haccepted⟩

example : scan "$\x7ba[i]@P\x7d".toList = .error (.impure .transformation) := by decide

end ShellFold
