import ShellFold.Proofs.Attempt
import ShellFold.Proofs.Text.Written
import ShellFold.Word

/-!
# The source of a word

`Word.sourceText` fragment by fragment: what a word of source characters, of literals, and of one
followed by the other is written as. The source of literals is `Text.Written` for their value
(`Word.written_sourceText`).
-/

set_option autoImplicit false

namespace ShellFold

@[simp] theorem Fragment.sourceText_raw (c : Char) : (raw c).sourceText = .ok [c] := rfl

@[simp] theorem Fragment.sourceText_quoted (s : Text) :
    (quoted s).sourceText = quoteLiteral s := rfl

theorem quoteLiteral_eq_ok {s t : Text} : quoteLiteral s = .ok t ↔ s.quote? = some t := by
  unfold quoteLiteral
  split <;> simp_all

/-- Only a NUL cannot be written. -/
theorem exists_quote? {s : Text} (h : '\x00' ∉ s) : ∃ t, s.quote? = some t := by
  rw [← Option.ne_none_iff_exists', ne_eq, Text.quote?_eq_none_iff]
  exact h

theorem Text.ne_nil_of_quote? {s t : Text} (h : s.quote? = some t) : t ≠ [] := by
  rintro rfl
  have hw := written_of_quote? h
  cases hw
  simp [quote?] at h

namespace Word

@[simp] theorem rawChars_nil : rawChars ⟨[]⟩ = [] := rfl

@[simp] theorem rawChars_raw (c : Char) (fs : List Fragment) :
    rawChars ⟨.raw c :: fs⟩ = c :: rawChars ⟨fs⟩ := rfl

@[simp] theorem rawChars_quoted (s : Text) (fs : List Fragment) :
    rawChars ⟨.quoted s :: fs⟩ = rawChars ⟨fs⟩ := rfl

@[simp] theorem value_raw (c : Char) (fs : List Fragment) :
    value ⟨.raw c :: fs⟩ = c :: value ⟨fs⟩ := rfl

@[simp] theorem value_quoted (s : Text) (fs : List Fragment) :
    value ⟨.quoted s :: fs⟩ = s ++ value ⟨fs⟩ := rfl

@[simp] theorem sourceText_nil : sourceText ⟨[]⟩ = .ok [] := rfl

theorem sourceText_cons (f : Fragment) (fs : List Fragment) :
    sourceText ⟨f :: fs⟩ =
      f.sourceText >>= fun t => sourceText ⟨fs⟩ >>= fun u => .ok (t ++ u) := by
  simp only [sourceText, List.mapM_cons]
  rcases f.sourceText with e | t
  · rfl
  · rcases fs.mapM Fragment.sourceText with e | u <;> rfl

theorem sourceText_append {fs gs : List Fragment} {t u : Text} (ht : sourceText ⟨fs⟩ = .ok t)
    (hu : sourceText ⟨gs⟩ = .ok u) : sourceText ⟨fs ++ gs⟩ = .ok (t ++ u) := by
  induction fs generalizing t with
  | nil =>
    cases ht
    exact hu
  | cons f fs ih =>
    rw [sourceText_cons] at ht
    obtain ⟨a, ha, ht⟩ := bind_eq_ok.1 ht
    obtain ⟨b, hb, ht⟩ := bind_eq_ok.1 ht
    cases ht
    rw [List.cons_append, sourceText_cons, ha, ih hb, ok_bind, ok_bind, List.append_assoc]

/-- Source characters are written as they are. -/
theorem sourceText_ofText (s : Text) : (ofText s).sourceText = .ok s := by
  induction s with
  | nil => rfl
  | cons c s ih =>
    show sourceText ⟨.raw c :: (ofText s).fragments⟩ = _
    rw [sourceText_cons, ih]
    rfl

/-- Source characters alone stand for themselves. -/
theorem value_ofText (s : Text) : (ofText s).value = s := by
  induction s with
  | nil => rfl
  | cons c s ih =>
    show value ⟨.raw c :: (ofText s).fragments⟩ = _
    rw [value_raw, ih]

theorem sourceText_literal {s t : Text} (h : s.quote? = some t) :
    (literal s).sourceText = .ok t := by
  show sourceText ⟨[.quoted s]⟩ = _
  rw [sourceText_cons, Fragment.sourceText_quoted, quoteLiteral_eq_ok.2 h, sourceText_nil]
  simp

/-- The source of a word of literals spells its value, and is empty only if the word is. -/
theorem written_sourceText {w : Word} (hw : w.isLiteral = true) (hnul : '\x00' ∉ w.value) :
    ∃ t, w.sourceText = .ok t ∧ Text.Written w.value t ∧ (w.fragments ≠ [] → t ≠ []) := by
  obtain ⟨fs⟩ := w
  induction fs with
  | nil => exact ⟨[], rfl, .nil, fun h => absurd rfl h⟩
  | cons f fs ih =>
    cases f with
    | raw c => simp [isLiteral, Fragment.rawChar?] at hw
    | quoted s =>
      simp only [value, List.flatMap_cons, Fragment.value, List.mem_append, not_or] at hnul
      obtain ⟨a, ha⟩ := exists_quote? hnul.1
      obtain ⟨b, hb, hwb, -⟩ := ih (by simpa [isLiteral, Fragment.rawChar?] using hw) hnul.2
      refine ⟨a ++ b, ?_, (Text.written_of_quote? ha).append hwb, fun _ => ?_⟩
      · rw [sourceText_cons, Fragment.sourceText_quoted, quoteLiteral_eq_ok.2 ha, ok_bind, hb,
          ok_bind]
      · simp [Text.ne_nil_of_quote? ha]

end Word

end ShellFold
