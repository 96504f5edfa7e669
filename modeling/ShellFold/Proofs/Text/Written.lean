import ShellFold.Text.Name
import ShellFold.Text.Quoted

/-!
# What quoting writes

`Text.Written s t`: the source `t` is a sequence of bare characters, single-quoted runs and
double-quoted runs that together spell `s`. Every output of `Text.quote?` is of this form
(`written_of_quote?`), whichever runs the greedy cut has chosen, so a reader of shell source is
shown to read quoted literals back by one induction over `Written`, with a case for each style.
-/

set_option autoImplicit false

namespace ShellFold.Text

/-- Shell source that spells a text, run by run. -/
inductive Written : Text → Text → Prop
  | nil : Written [] []
  | bare {c : Char} {s t : Text} : Styles.isBare c = true → Written s t → Written (c :: s) (c :: t)
  | single {run s t : Text} : (∀ c ∈ run, c ≠ '\'' ∧ c ≠ '\\') → Written s t →
      Written (run ++ s) ('\'' :: (run ++ '\'' :: t))
  | double {run s t : Text} : (∀ c ∈ run, c ≠ '$' ∧ c ≠ '\x60') → Written s t →
      Written (run ++ s) ('"' :: (run.flatMap Styles.escapeInDouble ++ '"' :: t))

/-- Every character of a run can be written in each of the styles left for it. -/
structure Styles.Admits (styles : Styles) (run : Text) : Prop where
  bare : styles.bare = true → ∀ c ∈ run, isBare c = true
  single : styles.single = true → ∀ c ∈ run, c ≠ '\'' ∧ c ≠ '\\'
  double : styles.double = true → ∀ c ∈ run, c ≠ '$' ∧ c ≠ '\x60'
  /-- Some style is left. -/
  left : styles.isEmpty = false

namespace Styles

theorem admits_opening (c : Char) : (opening c).Admits [c] := by
  have hleft := opening_isEmpty c
  unfold opening at hleft ⊢
  split
  · next hc =>
    subst hc
    exact ⟨by simp, by simp, by simp, rfl⟩
  · next hc =>
    rw [if_neg hc] at hleft
    refine ⟨?_, ?_, ?_, hleft⟩
    · intro hb d hd
      rw [List.mem_singleton.1 hd]
      exact hb
    · intro hs d hd
      rw [List.mem_singleton.1 hd]
      simp only [ofChar, List.mem_cons, List.not_mem_nil, or_false, not_or, decide_eq_true_eq] at hs
      exact ⟨hs.1, hs.2.2⟩
    · intro hs d hd
      rw [List.mem_singleton.1 hd]
      simp only [ofChar, List.mem_cons, List.not_mem_nil, or_false, not_or, decide_eq_true_eq] at hs
      exact ⟨hs.2.1, hs.1⟩

/-- A run may grow by a character as long as some style is left. -/
theorem Admits.concat {styles : Styles} {run : Text} (h : styles.Admits run) {c : Char}
    (hleft : (styles.meet (ofChar c)).isEmpty = false) :
    (styles.meet (ofChar c)).Admits (run ++ [c]) := by
  refine ⟨?_, ?_, ?_, hleft⟩
  all_goals
    intro hs d hd
    simp only [meet, ofChar, Bool.and_eq_true, List.mem_cons, List.not_mem_nil, or_false, not_or,
      decide_eq_true_eq] at hs
    rcases List.mem_append.1 hd with hd | hd
  · exact h.bare hs.1 d hd
  · rw [List.mem_singleton.1 hd]
    exact hs.2
  · exact h.single hs.1 d hd
  · rw [List.mem_singleton.1 hd]
    exact ⟨hs.2.1, hs.2.2.2⟩
  · exact h.double hs.1 d hd
  · rw [List.mem_singleton.1 hd]
    exact ⟨hs.2.2.1, hs.2.1⟩

/-- A run in front of what is written already. -/
theorem Admits.written {styles : Styles} {run s t : Text} (h : styles.Admits run)
    (hw : Written s t) : Written (run ++ s) (styles.write run ++ t) := by
  have hleft := h.left
  unfold write
  split
  · next hb =>
    have hrun := h.bare hb
    clear h hleft
    induction run with
    | nil => exact hw
    | cons c run ih =>
      exact .bare (hrun c (.head _)) (ih fun d hd => hrun d (.tail _ hd))
  · next hb =>
    split
    · next hs => simpa using Written.single (h.single hs) hw
    · next hs =>
      have hd : styles.double = true := by simpa [isEmpty, hb, hs] using hleft
      simpa using Written.double (h.double hd) hw

end Styles

/-- The cut into runs writes the run it has begun and the rest. -/
theorem written_quoteFrom (s : Text) : ∀ {run : Text} {styles : Styles}, styles.Admits run →
    Written (run ++ s) (quoteFrom run styles s) := by
  induction s with
  | nil =>
    intro run styles h
    simpa [quoteFrom] using h.written .nil
  | cons c s ih =>
    intro run styles h
    simp only [quoteFrom]
    split
    · exact h.written (ih (Styles.admits_opening c))
    · next hleft => simpa using ih (h.concat (by simpa using hleft))

/-- Quoting writes the text that is quoted. -/
theorem written_of_quote? {s t : Text} (h : quote? s = some t) : Written s t := by
  unfold quote? at h
  split at h
  · cases h
  · cases s with
    | nil =>
      cases h
      exact @Written.single [] [] [] (by simp) .nil
    | cons c s =>
      cases h
      exact written_quoteFrom s (Styles.admits_opening c)

namespace Written

theorem append {s t s' t' : Text} (h : Written s t) (h' : Written s' t') :
    Written (s ++ s') (t ++ t') := by
  induction h with
  | nil => exact h'
  | bare hc _ ih => exact .bare hc ih
  | single hr _ ih => simpa using Written.single hr ih
  | double hr _ ih => simpa using Written.double hr ih

/-- Quoting adds nothing but quotes and backslashes. -/
theorem subset {s t : Text} (h : Written s t) : ∀ c ∈ t, c ∈ s ∨ c ∈ ['\'', '"', '\\'] := by
  have escape : ∀ {run : Text} {c : Char}, c ∈ run.flatMap Styles.escapeInDouble →
      c ∈ run ∨ c = '\\' := by
    intro run c hc
    obtain ⟨d, hd, hc⟩ := List.mem_flatMap.1 hc
    unfold Styles.escapeInDouble at hc
    split at hc <;> grind
  induction h with
  | nil => simp
  | bare _ _ ih => grind
  | single _ _ ih => grind
  | double _ _ ih => grind

end Written

end ShellFold.Text
