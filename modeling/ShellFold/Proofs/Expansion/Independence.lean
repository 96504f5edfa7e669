import Mathlib.Data.List.Infix
import ShellFold.Builtin
import ShellFold.Proofs.Expansion.Mentioned
import ShellFold.Proofs.Expansion.Reading

/-!
# Variables that do not matter

The names that the pieces of a word mention stand in the word itself, except for the home directory
(`Piece.isInfix_of_mem_namesAll`). So a variable that does not stand in a word, and neither names the
home directory nor separates fields, makes no difference to what the word expands to
(`Builtin.expand_of_not_isInfix`).
-/

set_option autoImplicit false

namespace ShellFold

/-! ## Names in the text -/

namespace Piece

theorem mem_namesAll_cons_ofReference {quoted : Bool} {word pieces : List Piece} {ref : Reference}
    {name : Text} (h : name ∈ namesAll (ofReference quoted word ref :: pieces)) :
    name = ref.name ∨ name ∈ namesAll word ∨ name ∈ namesAll pieces := by
  rw [namesAll, List.mem_append] at h
  rcases h with h | h
  · cases ref with
    | value | length | rejected => exact .inl (List.mem_singleton.1 h)
    | choice => exact (List.mem_cons.1 h).imp_right .inl
  · exact .inr (.inr h)

/-- **The names that a text is read to mention stand in it.** -/
theorem isInfix_of_mem_namesAll_read (q : Quoting) (s : Text) {name : Text}
    (h : name ∈ namesAll (read q s)) : name <:+: s := by
  match s with
  | [] =>
    rw [read_nil] at h
    rcases q with _ | _ | (_ | _) | _ <;> cases h
  | c :: s =>
    rw [read_cons] at h
    by_cases hfails : ∃ e, (q.step c s).lexeme = .failure e
    · obtain ⟨e, he⟩ := hfails
      rw [he] at h
      cases h
    · obtain ⟨taken, hs, htakes⟩ := q.takes_of_step c s fun e he => hfails ⟨e, he⟩
      have htaken : c :: taken <:+: c :: s := ⟨[], _, by rw [hs]; rfl⟩
      have hrest : (q.step c s).rest <:+: c :: s := by
        have hsuffix : (q.step c s).rest <:+ s := ⟨taken, hs.symm⟩
        exact (hsuffix.trans (List.suffix_cons c s)).isInfix
      have hlen := q.length_step c s
      split at h
      · exact (isInfix_of_mem_namesAll_read _ _ h).trans hrest
      · exact (isInfix_of_mem_namesAll_read _ _ h).trans hrest
      · next hl => exact absurd ⟨_, hl⟩ hfails
      · next ref hl =>
        rw [hl] at htakes
        have hword := Quoting.length_word_step hl
        rcases mem_namesAll_cons_ofReference h with rfl | h | h
        · exact htakes.isInfix.1.trans htaken
        · exact (isInfix_of_mem_namesAll_read _ ref.word h).trans (htakes.isInfix.2.trans htaken)
        · exact (isInfix_of_mem_namesAll_read _ _ h).trans hrest
termination_by s.length
decreasing_by
  all_goals
    simp only [List.length_cons]
    omega

/-- The names that a word is read to mention stand in it, but for the home directory. -/
theorem isInfix_of_mem_namesAll {mode : Mode} {s name : Text}
    (h : name ∈ namesAll (ofText mode s)) : name = "HOME".toList ∨ name <:+: s := by
  unfold ofText at h
  split at h
  · exact .inr (isInfix_of_mem_namesAll_read _ s h)
  · split at h
    · rw [namesAll, List.mem_append] at h
      rcases h with h | h
      · unfold ofTilde at h
        split at h
        · exact .inl (List.mem_singleton.1 h)
        · split at h <;> cases h
      · exact .inr ((isInfix_of_mem_namesAll_read _ _ h).trans (List.dropWhile_suffix _).isInfix)
    · exact .inr (isInfix_of_mem_namesAll_read _ s h)

end Piece

/-! ## States that differ in one variable -/

namespace Scope

/-- The scopes agree on all but one variable, which may have another value, other attributes, or be
in one of them only. -/
structure AgreeBut (name : Text) (a b : Scope) : Prop where
  positional : a.positional = b.positional
  options : a.options = b.options
  vars : ∀ other, other ≠ name → a.vars.get? other = b.vars.get? other

variable {a b : Scope} {name : Text}

theorem AgreeBut.value? (h : AgreeBut name a b) {other : Text} (hother : other ≠ name) :
    a.value? other = b.value? other := by
  rw [Scope.value?, Scope.value?, Variables.value?, Variables.value?, h.vars other hother]

theorem AgreeBut.alike (h : AgreeBut name a b) (hifs : name ≠ "IFS".toList) : a.Alike b :=
  ⟨h.positional, h.options, by rw [separators, separators, h.value? hifs.symm]⟩

theorem agreeBut_insert (scope : Scope) (name : Text) (v : Variable) :
    AgreeBut name scope { scope with vars := scope.vars.insert name v } :=
  ⟨rfl, rfl, fun other hother => by rw [Variables.get?_insert, if_neg hother.symm]⟩

end Scope

/-- **An expansion depends only on the variables it mentions.** Two states that agree on all but one
variable, which is neither the home directory nor the separators of fields, expand each word in which
the name of the variable does not stand to the same fields, or fail alike, in every mode. -/
theorem Builtin.expand_of_not_isInfix {a b : Builtin} {name s : Text} (mode : Mode)
    (hagree : Scope.AgreeBut name a.scope b.scope) (hifs : name ≠ "IFS".toList)
    (hhome : name ≠ "HOME".toList) (hs : ¬name <:+: s) :
    ((Oracle.expand s mode).outcome a).1 = ((Oracle.expand s mode).outcome b).1 := by
  refine (hagree.alike hifs).expand fun other hother => hagree.value? ?_
  rintro rfl
  rcases Piece.isInfix_of_mem_namesAll hother with hother | hother
  · exact hhome hother
  · exact hs hother

/-- A variable that is there in one state only, of whose name the word holds the letters, but not
side by side. -/
theorem Builtin.expand_of_not_isInfix_of_unset :
    let a : Builtin := { scope := { vars := Variables.ofList [(['x'], { value := ['1'] })] } }
    let v : Variable := { value := "2 *".toList, readonly := true }
    let b : Builtin := { scope := { a.scope with vars := a.scope.vars.insert ['x', 'y'] v } }
    let s : Text := "~/$x${y-$x}".toList
    (Scope.AgreeBut ['x', 'y'] a.scope b.scope ∧ ['x', 'y'] ≠ "IFS".toList ∧
      ['x', 'y'] ≠ "HOME".toList ∧ ¬['x', 'y'] <:+: s) ∧
    ((Oracle.expand s .split).outcome a).1 = ((Oracle.expand s .split).outcome b).1 := by
  intro a v b s
  have hagree : Scope.AgreeBut ['x', 'y'] a.scope b.scope := a.scope.agreeBut_insert ['x', 'y'] v
  have hifs : ['x', 'y'] ≠ "IFS".toList := by decide
  have hhome : ['x', 'y'] ≠ "HOME".toList := by decide
  have hs : ¬['x', 'y'] <:+: s := by decide
  exact ⟨⟨hagree, hifs, hhome, hs⟩, expand_of_not_isInfix .split hagree hifs hhome hs⟩

end ShellFold
