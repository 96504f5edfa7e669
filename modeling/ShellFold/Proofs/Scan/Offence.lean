import Mathlib.Data.List.Induction
import ShellFold.Proofs.Scan

/-!
# Where the scanner refuses a text

`Text.Offence` says, of a character and the text in front of it alone, whether the character may not
stand there and why. What the scanner remembers of the text it has passed is what these conditions
ask for (`Scanner.offence?_past`), so it refuses a text at the first character that offends, and
accepts a text in which none does (`scan_iff`).
-/

set_option autoImplicit false

namespace ShellFold

namespace Text

/-- Some `${` of the text has no closing brace behind it. -/
def OpensBrace (s : Text) : Prop :=
  ∃ before inside, s = before ++ '$' :: '{' :: inside ∧ '}' ∉ inside

/-- A character must not stand behind the text `before`, and why. -/
inductive Offence (before : Text) : Char → Failure → Prop
  | delete : Offence before '\x7f' (.stuck .deleteCharacter)
  | glob {c : Char} (hc : c = '*' ∨ c = '?' ∨ c = '!') :
      Offence before c (.unimplemented (.globCharacter c))
  | backtick : Offence before '\x60' (.impure .backtick)
  | command (hlast : before.getLast? = some '$') :
      Offence before '(' (.impure .commandSubstitution)
  | process (hlast : before.getLast? = some '<' ∨ before.getLast? = some '>') :
      Offence before '(' (.impure .processSubstitution)
  | array (hlast : ∀ c ∈ before.getLast?, c ≠ '$' ∧ c ≠ '<' ∧ c ≠ '>') :
      Offence before '(' (.impure .arraySyntax)
  | assignment (hdollar : '$' ∈ before) : Offence before '=' (.impure .assignmentInExpansion)
  | transformation (hopen : before.OpensBrace)
      (hlast : ∀ c ∈ before.getLast?, c ≠ '{' ∧ c ≠ '[') :
      Offence before '@' (.impure .transformation)
  | directoryStack {c : Char} (hc : c = '+' ∨ c = '-') (hlast : before.getLast? = some '~') :
      Offence before c (.impure (.directoryStack (some c)))

/-- No character of the text offends. -/
def Harmless (s : Text) : Prop := ∀ before c, before ++ [c] <+: s → ∀ e, ¬Offence before c e

/-- The first character of the text that offends does so for the given reason. -/
def FirstOffence (s : Text) (e : Failure) : Prop :=
  ∃ before c, before ++ [c] <+: s ∧ before.Harmless ∧ Offence before c e

variable {s : Text} {c : Char} {e : Failure}

theorem opensBrace_concat :
    OpensBrace (s ++ [c]) ↔ c = '{' ∧ s.getLast? = some '$' ∨ c ≠ '}' ∧ s.OpensBrace := by
  constructor
  · rintro ⟨before, inside, heq, hinside⟩
    cases inside using List.reverseRecOn with
    | nil =>
      rw [show before ++ ['$', '{'] = before ++ ['$'] ++ ['{'] by simp] at heq
      obtain ⟨rfl, hc⟩ := List.append_inj' heq rfl
      exact .inl ⟨List.head_eq_of_cons_eq hc, List.getLast?_concat⟩
    | append_singleton inside d =>
      rw [show before ++ '$' :: '{' :: (inside ++ [d]) = before ++ '$' :: '{' :: inside ++ [d] by
        simp] at heq
      obtain ⟨rfl, hc⟩ := List.append_inj' heq rfl
      obtain rfl := List.head_eq_of_cons_eq hc
      rw [List.mem_append, List.mem_singleton, not_or] at hinside
      exact .inr ⟨Ne.symm hinside.2, before, inside, rfl, hinside.1⟩
  · rintro (⟨rfl, hlast⟩ | ⟨hc, before, inside, rfl, hinside⟩)
    · obtain ⟨before, rfl⟩ := List.getLast?_eq_some_iff.1 hlast
      exact ⟨before, [], by simp, List.not_mem_nil⟩
    · refine ⟨before, inside ++ [c], by simp, ?_⟩
      rw [List.mem_append, List.mem_singleton, not_or]
      exact ⟨hinside, Ne.symm hc⟩

end Text

/-! ## What the scanner remembers -/

namespace Window

variable {c : Char}

theorem after_eq_dollar : after c = .dollar ↔ c = '$' := by
  grind [after]

theorem after_eq_angle : after c = .angle ↔ c = '<' ∨ c = '>' := by
  grind [after]

theorem after_eq_tilde : after c = .tilde ↔ c = '~' := by
  grind [after]

theorem after_eq_opening : after c = .opening ↔ c = '{' ∨ c = '[' := by
  grind [after]

end Window

namespace Scanner

/-- The scanner when it has passed a text. -/
def past (s : Text) : Scanner := s.foldl advance {}

variable {s : Text} {c : Char} {e : Failure}

theorem past_concat (s : Text) (c : Char) : past (s ++ [c]) = (past s).advance c := by
  rw [past, List.foldl_append]
  rfl

/-- The window is that of the last character, if there is one. -/
theorem window_past_eq {w : Window} (hw : w ≠ .other) :
    (past s).window = w ↔ ∃ c ∈ s.getLast?, Window.after c = w := by
  cases s using List.reverseRecOn with
  | nil => exact iff_of_false (Ne.symm hw) (by simp)
  | append_singleton s c =>
    rw [past_concat, List.getLast?_concat]
    simp [advance]

theorem window_past_eq_dollar : (past s).window = .dollar ↔ s.getLast? = some '$' := by
  simp [window_past_eq, Window.after_eq_dollar]

theorem window_past_eq_tilde : (past s).window = .tilde ↔ s.getLast? = some '~' := by
  simp [window_past_eq, Window.after_eq_tilde]

theorem window_past_eq_angle :
    (past s).window = .angle ↔ s.getLast? = some '<' ∨ s.getLast? = some '>' := by
  simp [window_past_eq, Window.after_eq_angle, and_or_left, exists_or]

theorem window_past_ne_opening :
    (past s).window ≠ .opening ↔ ∀ c ∈ s.getLast?, c ≠ '{' ∧ c ≠ '[' := by
  simp [window_past_eq, Window.after_eq_opening]

theorem seenDollar_past : (past s).seenDollar = true ↔ '$' ∈ s := by
  induction s using List.reverseRecOn with
  | nil => simp [past]
  | append_singleton s c ih =>
    rw [past_concat, List.mem_append, List.mem_singleton, ← ih, eq_comm (a := '$')]
    simp [advance]

theorem inBraces_past : (past s).inBraces = true ↔ s.OpensBrace := by
  induction s using List.reverseRecOn with
  | nil => simp [past, Text.OpensBrace]
  | append_singleton s c ih =>
    rw [past_concat, advance, Text.opensBrace_concat, ← ih, ← window_past_eq_dollar]
    dsimp only
    split_ifs with hopen hclose
    · exact iff_of_true rfl (.inl hopen)
    · simp [hclose]
    · rw [or_iff_right hopen, and_iff_right hclose]

theorem needsExpansion_past : (past s).needsExpansion = true ↔ ∃ c ∈ s, expandsWord c = true := by
  induction s using List.reverseRecOn with
  | nil => simp [past]
  | append_singleton s c ih => simp [past_concat, advance, ih, or_and_right, exists_or]

/-- **The scanner refuses a character behind the text it has passed exactly where the character
offends**, and for the same reason. -/
theorem offence?_past : (past s).offence? c = some e ↔ Text.Offence s c e := by
  constructor
  · intro h
    unfold offence? at h
    split_ifs at h with hdelete hglob hbacktick hparenthesis hassigns htransforms hstack <;> cases h
    · exact hdelete ▸ .delete
    · exact .glob hglob
    · exact hbacktick ▸ .backtick
    · subst hparenthesis
      cases hwindow : (past s).window with
      | dollar => exact .command (window_past_eq_dollar.1 hwindow)
      | angle => exact .process (window_past_eq_angle.1 hwindow)
      | other | tilde | opening =>
        have hdollar := mt window_past_eq_dollar.2 (by rw [hwindow]; decide)
        have hangle := mt window_past_eq_angle.2 (by rw [hwindow]; decide)
        refine .array fun c hc => ⟨?_, ?_, ?_⟩
        · rintro rfl
          exact hdollar hc
        · rintro rfl
          exact hangle (.inl hc)
        · rintro rfl
          exact hangle (.inr hc)
    · exact hassigns.1 ▸ .assignment (seenDollar_past.1 hassigns.2)
    · exact htransforms.1 ▸ .transformation (inBraces_past.1 htransforms.2.1)
        (window_past_ne_opening.1 htransforms.2.2)
    · exact .directoryStack hstack.1 (window_past_eq_tilde.1 hstack.2)
  · intro h
    cases h with
    | delete => rfl
    | glob hc => rcases hc with rfl | rfl | rfl <;> rfl
    | backtick => rfl
    | command hlast =>
      have hwindow := window_past_eq_dollar.2 hlast
      simp [offence?, parenthesis, hwindow]
    | process hlast =>
      have hwindow := window_past_eq_angle.2 hlast
      simp [offence?, parenthesis, hwindow]
    | array hlast =>
      have hdollar := mt window_past_eq_dollar.1 fun h => (hlast _ h).1 rfl
      have hangle := mt window_past_eq_angle.1 fun h =>
        h.elim (fun h => (hlast _ h).2.1 rfl) fun h => (hlast _ h).2.2 rfl
      cases hwindow : (past s).window <;> simp_all [offence?, parenthesis]
    | assignment hdollar => simp [offence?, seenDollar_past.2 hdollar]
    | transformation hopen hlast =>
      simp [offence?, inBraces_past.2 hopen, window_past_ne_opening.2 hlast]
    | directoryStack hc hlast =>
      have hwindow := window_past_eq_tilde.2 hlast
      rcases hc with rfl | rfl <;> simp [offence?, hwindow]

/-! ## The pass over a text -/

theorem foldlM_concat (s : Text) (c : Char) :
    (s ++ [c]).foldlM step {} = s.foldlM step {} >>= fun scanner => scanner.step c := by
  simp only [List.foldlM_append, List.foldlM_cons, List.foldlM_nil, bind_pure]

/-- **One step** behind a text that has been passed. -/
theorem step_past (s : Text) (c : Char) :
    (past s).step c = .ok (past (s ++ [c])) ∧ (∀ e, ¬Text.Offence s c e) ∨
      ∃ e, (past s).step c = .error e ∧ Text.Offence s c e := by
  cases hoffence : (past s).offence? c with
  | none =>
    refine .inl ⟨by rw [step, hoffence, past_concat], fun e he => ?_⟩
    rw [offence?_past.2 he] at hoffence
    cases hoffence
  | some e => exact .inr ⟨e, by rw [step, hoffence], offence?_past.1 hoffence⟩

end Scanner

open Scanner (past)

namespace Text

variable {s t : Text} {c : Char} {e : Failure}

theorem harmless_nil : Harmless [] := fun _ _ h => by simp at h

theorem harmless_concat : Harmless (s ++ [c]) ↔ s.Harmless ∧ ∀ e, ¬Offence s c e := by
  constructor
  · exact fun h => ⟨fun before d hbegins => h before d (hbegins.trans (List.prefix_append _ _)),
      h s c (List.prefix_refl _)⟩
  · rintro ⟨hs, hc⟩ before d hbegins
    rcases List.prefix_concat_iff.1 hbegins with heq | hbegins
    · obtain ⟨rfl, hd⟩ := List.append_inj' heq rfl
      rw [List.head_eq_of_cons_eq hd]
      exact hc
    · exact hs before d hbegins

theorem FirstOffence.of_prefix (h : s.FirstOffence e) (hbegins : s <+: t) : t.FirstOffence e := by
  obtain ⟨before, c, hbefore, hharmless, hoffence⟩ := h
  exact ⟨before, c, hbefore.trans hbegins, hharmless, hoffence⟩

theorem FirstOffence.not_harmless (h : s.FirstOffence e) : ¬s.Harmless := by
  obtain ⟨before, c, hbegins, -, hoffence⟩ := h
  exact fun hs => hs before c hbegins e hoffence

/-- **The pass over a text**: it ends well where no character offends, and otherwise at the first
that does. -/
theorem foldlM_step (s : Text) :
    s.Harmless ∧ s.foldlM Scanner.step {} = .ok (past s) ∨
      ∃ e, s.FirstOffence e ∧ s.foldlM Scanner.step {} = .error e := by
  induction s using List.reverseRecOn with
  | nil => exact .inl ⟨harmless_nil, rfl⟩
  | append_singleton s c ih =>
    rw [Scanner.foldlM_concat, harmless_concat]
    rcases ih with ⟨hharmless, hpass⟩ | ⟨e, hfirst, hpass⟩
    · rw [hpass, ok_bind]
      rcases Scanner.step_past s c with ⟨hstep, hc⟩ | ⟨e, hstep, hoffence⟩
      · exact .inl ⟨⟨hharmless, hc⟩, hstep⟩
      · exact .inr ⟨e, ⟨s, c, List.prefix_refl _, hharmless, hoffence⟩, hstep⟩
    · rw [hpass, error_bind]
      exact .inr ⟨e, hfirst.of_prefix (List.prefix_append _ _), rfl⟩

theorem FirstOffence.unique {e' : Failure} (h : s.FirstOffence e) (h' : s.FirstOffence e') :
    e = e' := by
  -- neither can lie within the part of the text in which the other finds nothing
  have hcompare : ∀ {before before' : Text} {c c' : Char} {e e' : Failure},
      before ++ [c] <+: before' ++ [c'] → Offence before c e → before'.Harmless →
      Offence before' c' e' → e = e' := by
    intro before before' c c' e e' hbegins hoffence hharmless hoffence'
    rcases List.prefix_concat_iff.1 hbegins with heq | hbegins
    · obtain ⟨rfl, hc⟩ := List.append_inj' heq rfl
      cases hc
      rw [← Scanner.offence?_past] at hoffence hoffence'
      exact Option.some.inj (hoffence.symm.trans hoffence')
    · exact absurd hoffence (hharmless before c hbegins e)
  obtain ⟨before, c, hbegins, hharmless, hoffence⟩ := h
  obtain ⟨before', c', hbegins', hharmless', hoffence'⟩ := h'
  rcases List.prefix_or_prefix_of_prefix hbegins hbegins' with h | h
  · exact hcompare h hoffence hharmless' hoffence'
  · exact (hcompare h hoffence' hharmless hoffence).symm

theorem harmless_or_firstOffence (s : Text) : s.Harmless ∨ ∃ e, s.FirstOffence e := by
  rcases foldlM_step s with ⟨hharmless, -⟩ | ⟨e, hfirst, -⟩
  · exact .inl hharmless
  · exact .inr ⟨e, hfirst⟩

end Text

/-! ## The verdict -/

section

variable {s : Text} {e : Failure} {verdict : Verdict}

theorem isPureArithmetic_iff_begins :
    isPureArithmetic s = true ↔ ['$', '(', '('] <+: s ∧ '=' ∉ s := by
  simp [isPureArithmetic, List.isPrefixOf_iff_prefix]

theorem expandsWord_iff {c : Char} :
    expandsWord c = true ↔ c ∈ ['{', '$', '~', '[', '"', '\''] := by
  simp [expandsWord, or_assoc]

theorem scan_of_harmless (harithmetic : ¬isPureArithmetic s = true) (h : s.Harmless) :
    scan s = .ok (past s).verdict := by
  rcases s.foldlM_step with ⟨-, hpass⟩ | ⟨e, hfirst, -⟩
  · rw [scan, if_neg harithmetic, hpass]
    rfl
  · exact absurd h hfirst.not_harmless

theorem scan_of_firstOffence (harithmetic : ¬isPureArithmetic s = true) (h : s.FirstOffence e) :
    scan s = .error e := by
  rcases s.foldlM_step with ⟨hharmless, -⟩ | ⟨e', hfirst, hpass⟩
  · exact absurd hharmless h.not_harmless
  · rw [scan, if_neg harithmetic, hpass, h.unique hfirst]
    rfl

theorem scan_eq_error_iff :
    scan s = .error e ↔ ¬isPureArithmetic s = true ∧ s.FirstOffence e := by
  refine ⟨fun h => ?_, fun h => scan_of_firstOffence h.1 h.2⟩
  by_cases harithmetic : isPureArithmetic s = true
  · rw [scan_of_isPureArithmetic harithmetic] at h
    cases h
  rcases s.harmless_or_firstOffence with hharmless | ⟨e', hfirst⟩
  · rw [scan_of_harmless harithmetic hharmless] at h
    cases h
  · rw [scan_of_firstOffence harithmetic hfirst] at h
    cases h
    exact ⟨harithmetic, hfirst⟩

theorem scan_eq_ok_iff :
    scan s = .ok verdict ↔ isPureArithmetic s = true ∧ verdict = .expand ∨
      ¬isPureArithmetic s = true ∧ s.Harmless ∧ (past s).verdict = verdict := by
  by_cases harithmetic : isPureArithmetic s = true
  · simp [scan_of_isPureArithmetic harithmetic, harithmetic, eq_comm]
  rcases s.harmless_or_firstOffence with hharmless | ⟨e, hfirst⟩
  · simp [scan_of_harmless harithmetic hharmless, harithmetic, hharmless]
  · simp [scan_of_firstOffence harithmetic hfirst, harithmetic, hfirst.not_harmless]

end

/-- **The scanner by its rules.** A text that begins as an arithmetic expansion and assigns nothing
is to be expanded. Any other is refused if and only if some character of it offends, for the reason
of the first that does; if none does it is to be expanded where it has one of six characters, and
untouched where it has none of them. -/
theorem scan_iff (s : Text) :
    let arithmetic : Prop := ['$', '(', '('] <+: s ∧ '=' ∉ s
    let special : Prop := ∃ c ∈ s, c ∈ ['{', '$', '~', '[', '"', '\'']
    ((∃ e, scan s = .error e) ↔
        ¬arithmetic ∧ ∃ before c e, before ++ [c] <+: s ∧ Text.Offence before c e) ∧
      (∀ e, scan s = .error e ↔ ¬arithmetic ∧ s.FirstOffence e) ∧
      (scan s = .ok .expand ↔ arithmetic ∨ s.Harmless ∧ special) ∧
      (scan s = .ok .untouched ↔ ¬arithmetic ∧ s.Harmless ∧ ¬special) := by
  intro arithmetic special
  have harithmetic : isPureArithmetic s = true ↔ arithmetic := isPureArithmetic_iff_begins
  have hspecial : (past s).needsExpansion = true ↔ special := by
    simp only [Scanner.needsExpansion_past, expandsWord_iff, special]
  have hoffends : (∃ before c e, before ++ [c] <+: s ∧ Text.Offence before c e) ↔ ¬s.Harmless := by
    simp only [Text.Harmless, not_forall, not_not, exists_prop, exists_and_left]
  have hfirst : ¬s.Harmless ↔ ∃ e, s.FirstOffence e :=
    ⟨s.harmless_or_firstOffence.resolve_left, fun ⟨_, h⟩ => h.not_harmless⟩
  refine ⟨?_, fun e => ?_, ?_, ?_⟩
  · rw [hoffends, hfirst]
    simp only [scan_eq_error_iff, harithmetic, exists_and_left]
  · rw [scan_eq_error_iff, harithmetic]
  · by_cases ha : arithmetic <;> simp [scan_eq_ok_iff, harithmetic, Scanner.verdict, hspecial, ha]
  · by_cases ha : arithmetic <;> simp [scan_eq_ok_iff, harithmetic, Scanner.verdict, hspecial, ha]

end ShellFold
