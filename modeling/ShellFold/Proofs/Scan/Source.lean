import ShellFold.Proofs.Scan.Offence
import ShellFold.Proofs.Word

/-!
# What is scanned and what is sent

The scanner passes over the source characters of a word, but its literals are sent along with
them, and those that need no quotes (`Fragment.IsBare`) stand there as they are. So a literal may
take part in a construct of the source characters around it, or keep one apart: `Fragment.Joins`
says of a fragment, and of those in front of it alone, that it offends although the scanner has
passed it.
`harmless_value_iff` goes through a word fragment by fragment, and `scan_sourceText_iff` says which
words that the scanner accepts have a source that it refuses.
-/

set_option autoImplicit false

namespace ShellFold

/-! ## Literals without quotes -/

namespace Text

open Styles

variable {s t : Text} {c : Char}

theorem ofChar_of_isBare (h : isBare c = true) : ofChar c = ⟨true, true, true⟩ := by
  have hc := notMem_of_kind h (l := ['\'', '^', '\\', '\x60', '$', '!']) (by decide)
  simp only [List.mem_cons, List.not_mem_nil, or_false, not_or] at hc
  simp [ofChar, h, hc]

theorem quoteFrom_of_isBare (hs : ∀ c ∈ s, isBare c = true) :
    ∀ run : Text, quoteFrom run ⟨true, true, true⟩ s = run ++ s := by
  induction s with
  | nil => simp [quoteFrom, write]
  | cons c s ih =>
    rw [List.forall_mem_cons] at hs
    intro run
    have hboth : meet ⟨true, true, true⟩ (ofChar c) = ⟨true, true, true⟩ := by
      rw [ofChar_of_isBare hs.1]
      rfl
    rw [quoteFrom, hboth, if_neg (by decide), ih hs.2, List.append_assoc]
    rfl

/-- What needs no quotes is written as it is. -/
theorem quote?_of_isBare (hne : s ≠ []) (hs : ∀ c ∈ s, isBare c = true) : s.quote? = some s := by
  obtain ⟨c, s, rfl⟩ := List.exists_cons_of_ne_nil hne
  have hnul : '\x00' ∉ c :: s := fun hmem => absurd (hs _ hmem) (by decide)
  rw [List.forall_mem_cons] at hs
  have hopening : opening c = ⟨true, true, true⟩ := by
    rw [opening, if_neg, ofChar_of_isBare hs.1]
    rintro rfl
    exact absurd hs.1 (by decide)
  rw [quote?, if_neg hnul, hopening, quoteFrom_of_isBare hs.2]
  rfl

/-- Characters that need no quotes neither open nor close an expansion. -/
theorem opensBrace_append (hs : ∀ c ∈ s, isBare c = true) :
    OpensBrace (t ++ s) ↔ t.OpensBrace := by
  induction s using List.reverseRecOn with
  | nil => rw [List.append_nil]
  | append_singleton s c ih =>
    rw [List.forall_mem_append, List.forall_mem_singleton] at hs
    have hc := notMem_of_kind hs.2 (l := ['{', '}']) (by decide)
    simp only [List.mem_cons, List.not_mem_nil, or_false, not_or] at hc
    rw [← List.append_assoc, opensBrace_concat, ih hs.1, or_iff_right (fun h => hc.1 h.1),
      and_iff_right hc.2]

/-- A character that needs no quotes offends as an operator on an open expansion or as the sign of a
directory stack. -/
theorem offence_of_isBare (hc : isBare c = true) :
    (∃ e, Offence s c e) ↔
      (c = '@' ∧ s.OpensBrace ∧ ∀ d ∈ s.getLast?, d ≠ '{' ∧ d ≠ '[') ∨
        (c = '+' ∨ c = '-') ∧ s.getLast? = some '~' := by
  constructor
  · rintro ⟨e, h⟩
    cases h with
    | transformation hopen hlast => exact .inl ⟨rfl, hopen, hlast⟩
    | directoryStack hc hlast => exact .inr ⟨hc, hlast⟩
    | glob hglob => rcases hglob with rfl | rfl | rfl <;> cases hc
    | delete | backtick | command | process | array | assignment => cases hc
  · rintro (⟨rfl, hopen, hlast⟩ | ⟨hc, hlast⟩)
    · exact ⟨_, .transformation hopen hlast⟩
    · exact ⟨_, .directoryStack hc hlast⟩

theorem harmless_append : Harmless (s ++ t) ↔
    s.Harmless ∧ ∀ before c, before ++ [c] <+: t → ∀ e, ¬Offence (s ++ before) c e := by
  induction t using List.reverseRecOn with
  | nil => simp
  | append_singleton t d ih =>
    rw [← List.append_assoc, harmless_concat, ih, and_assoc]
    refine and_congr_right fun _ => ⟨fun ⟨hfront, hlast⟩ before c hbegins => ?_, fun h => ?_⟩
    · rcases List.prefix_concat_iff.1 hbegins with heq | hbegins
      · obtain ⟨rfl, hd⟩ := List.append_inj' heq rfl
        cases hd
        exact hlast
      · exact hfront before c hbegins
    · exact ⟨fun before c hbegins => h before c (hbegins.trans (List.prefix_append _ _)),
        h t d (List.prefix_refl _)⟩

end Text

/-- The fragment is written as it is: a source character, or a literal that needs no quotes. -/
def Fragment.IsBare : Fragment → Prop
  | .raw _ => True
  | .quoted s => s ≠ [] ∧ ∀ c ∈ s, Text.Styles.isBare c = true

/-- Behind the fragments `front` the fragment offends although the scanner has passed it: a literal
that begins with a sign makes a directory stack of a tilde, or one with an `@` in it transforms a
parameter; or a literal keeps an `@` apart from the bracket that it would have to stand behind. -/
inductive Fragment.Joins (front : List Fragment) : Fragment → Prop
  | directoryStack {sign : Char} {s : Text} (hsign : sign = '+' ∨ sign = '-')
      (hlast : front.getLast? = some (.raw '~')) : Joins front (.quoted (sign :: s))
  | transformation {s t : Text} (hopen : (Word.value ⟨front⟩).OpensBrace)
      (hlast : s = [] → front.getLast? ≠ some (.raw '{') ∧ front.getLast? ≠ some (.raw '[')) :
      Joins front (.quoted (s ++ '@' :: t))
  | parameter {s : Text} (hopen : (Word.value ⟨front⟩).OpensBrace)
      (hlast : front.getLast? = some (.quoted s)) : Joins front (.raw '@')

/-- Some fragment of the word joins what stands in front of it. -/
def Word.Joins (w : Word) : Prop := ∃ front f, front ++ [f] <+: w.fragments ∧ f.Joins front

/-! ## Source characters among bare literals -/

namespace Word

variable {fs : List Fragment} {f : Fragment} {c : Char} {s : Text}

theorem value_concat (fs : List Fragment) (f : Fragment) :
    value ⟨fs ++ [f]⟩ = value ⟨fs⟩ ++ f.value := by
  simp [value]

theorem rawChars_concat_raw (fs : List Fragment) (c : Char) :
    rawChars ⟨fs ++ [.raw c]⟩ = rawChars ⟨fs⟩ ++ [c] := by
  simp [rawChars, Fragment.rawChar?]

theorem rawChars_concat_quoted (fs : List Fragment) (s : Text) :
    rawChars ⟨fs ++ [.quoted s]⟩ = rawChars ⟨fs⟩ := by
  simp [rawChars, Fragment.rawChar?]

/-- The last source character, if no literal stands behind it. -/
theorem getLast?_rawChars (h : fs.getLast? = some (.raw c)) :
    (rawChars ⟨fs⟩).getLast? = some c := by
  obtain ⟨front, rfl⟩ := List.getLast?_eq_some_iff.1 h
  rw [rawChars_concat_raw, List.getLast?_concat]

theorem rawChars_subset : rawChars ⟨fs⟩ ⊆ value ⟨fs⟩ := by
  intro c hc
  obtain ⟨f, hf, hraw⟩ := List.mem_filterMap.1 hc
  refine List.mem_flatMap.2 ⟨f, hf, ?_⟩
  cases f with
  | raw d =>
    cases hraw
    exact List.mem_singleton_self c
  | quoted s => cases hraw

variable (hfs : ∀ f ∈ fs, f.IsBare)
include hfs

/-- Bare literals are part of the source as they are. -/
theorem sourceText_of_isBare : sourceText ⟨fs⟩ = .ok (value ⟨fs⟩) := by
  induction fs with
  | nil => rfl
  | cons f fs ih =>
    rw [List.forall_mem_cons] at hfs
    have hf : f.sourceText = .ok f.value := by
      cases f with
      | raw c => rfl
      | quoted s => exact quoteLiteral_eq_ok.2 (Text.quote?_of_isBare hfs.1.1 hfs.1.2)
    rw [sourceText_cons, hf, ih hfs.2]
    rfl

/-- What a bare literal cannot hold is a source character. -/
theorem mem_rawChars (hc : Text.Styles.isBare c = false) (h : c ∈ value ⟨fs⟩) :
    c ∈ rawChars ⟨fs⟩ := by
  obtain ⟨f, hf, hmem⟩ := List.mem_flatMap.1 h
  refine List.mem_filterMap.2 ⟨f, hf, ?_⟩
  cases f with
  | raw d =>
    cases List.mem_singleton.1 hmem
    rfl
  | quoted s =>
    rw [(hfs _ hf).2 c hmem] at hc
    cases hc

theorem getLast?_value (hc : Text.Styles.isBare c = false) :
    (value ⟨fs⟩).getLast? = some c ↔ fs.getLast? = some (.raw c) := by
  induction fs using List.reverseRecOn with
  | nil => simp [value]
  | append_singleton fs f =>
    rw [value_concat, List.getLast?_concat]
    cases f with
    | raw d => simp [Fragment.value]
    | quoted s =>
      obtain ⟨hne, hs⟩ := hfs _ (List.mem_append_right _ (.head _))
      refine iff_of_false (fun hlast => ?_) (by simp)
      obtain ⟨d, hd⟩ := Option.isSome_iff_exists.1 (List.getLast?_isSome.2 hne)
      rw [Fragment.value, List.getLast?_append, hd] at hlast
      cases hlast
      rw [hs c (List.mem_of_getLast? hd)] at hc
      cases hc

/-- An expansion that is open in the source is open among the source characters alone. -/
theorem opensBrace_rawChars (h : (value ⟨fs⟩).OpensBrace) : (rawChars ⟨fs⟩).OpensBrace := by
  induction fs using List.reverseRecOn with
  | nil => exact h
  | append_singleton fs f ih =>
    rw [List.forall_mem_append, List.forall_mem_singleton] at hfs
    rw [value_concat] at h
    cases f with
    | raw c =>
      rw [rawChars_concat_raw, Text.opensBrace_concat]
      rcases Text.opensBrace_concat.1 h with ⟨hc, hlast⟩ | ⟨hc, hopen⟩
      · exact .inl ⟨hc, getLast?_rawChars ((getLast?_value hfs.1 (by decide)).1 hlast)⟩
      · exact .inr ⟨hc, ih hfs.1 hopen⟩
    | quoted s =>
      rw [rawChars_concat_quoted]
      exact ih hfs.1 ((Text.opensBrace_append hfs.2.2).1 h)

/-- A run of characters that no bare literal holds begins the source where its characters begin the
word. -/
theorem isPrefix_value {run : Text} (hrun : run.any Text.Styles.isBare = false) :
    run <+: value ⟨fs⟩ ↔ run.map .raw <+: fs := by
  induction run generalizing fs with
  | nil => simp
  | cons c run ih =>
    rw [List.any_cons, Bool.or_eq_false_iff] at hrun
    rcases fs with _ | ⟨f, fs⟩
    · simp [value]
    rw [List.forall_mem_cons] at hfs
    cases f with
    | raw d =>
      rw [value_raw, List.map_cons, List.cons_prefix_cons, List.cons_prefix_cons, ih hfs.2 hrun.2,
        Fragment.raw.injEq]
    | quoted s =>
      obtain ⟨⟨hne, hs⟩, -⟩ := hfs
      obtain ⟨d, s, rfl⟩ := List.exists_cons_of_ne_nil hne
      rw [value_quoted, List.map_cons, List.cons_append, List.cons_prefix_cons,
        List.cons_prefix_cons]
      refine iff_of_false (fun h => ?_) (by simp)
      rw [h.1, hs d (.head _)] at hrun
      cases hrun.1

end Word

/-! ## Fragment by fragment -/

namespace Fragment

variable {front : List Fragment} {c : Char} {s : Text} (hfront : ∀ f ∈ front, f.IsBare)

/-- A parenthesis offends wherever it stands. -/
theorem exists_offence_parenthesis (before : Text) : ∃ e, Text.Offence before '(' e :=
  ⟨_, Scanner.offence?_past.1 rfl⟩

include hfront

/-- What no bare literal holds ends a source just if nothing of a literal stands behind it. -/
theorem getLast?_value_append (hs : ∀ c ∈ s, Text.Styles.isBare c = true)
    (hc : Text.Styles.isBare c = false) :
    (Word.value ⟨front⟩ ++ s).getLast? = some c ↔ s = [] ∧ front.getLast? = some (raw c) := by
  rcases List.eq_nil_or_concat s with rfl | ⟨s, d, rfl⟩
  · rw [List.append_nil, Word.getLast?_value hfront hc, and_iff_right rfl]
  · rw [List.concat_eq_append] at hs ⊢
    rw [← List.append_assoc, List.getLast?_concat]
    refine iff_of_false (fun h => ?_) (by simp)
    cases h
    rw [hs c (by simp)] at hc
    cases hc

theorem forall_getLast?_value_append (hs : ∀ c ∈ s, Text.Styles.isBare c = true) :
    (∀ d ∈ (Word.value ⟨front⟩ ++ s).getLast?, d ≠ '{' ∧ d ≠ '[') ↔
      (s = [] → front.getLast? ≠ some (raw '{') ∧ front.getLast? ≠ some (raw '[')) := by
  have hne (last : Option Char) :
      (∀ d ∈ last, d ≠ '{' ∧ d ≠ '[') ↔ last ≠ some '{' ∧ last ≠ some '[' := by
    cases last <;> simp
  rw [hne, ne_eq, ne_eq, getLast?_value_append hfront hs (by decide),
    getLast?_value_append hfront hs (by decide), not_and, not_and, imp_and]

/-- A source character that the scanner has passed offends only as an `@` behind a literal. -/
theorem joins_raw_iff (hpassed : ∀ e, ¬Text.Offence (Word.rawChars ⟨front⟩) c e) :
    (∃ e, Text.Offence (Word.value ⟨front⟩) c e) ↔ (raw c).Joins front := by
  constructor
  · rintro ⟨e, h⟩
    cases h with
    | delete => exact absurd .delete (hpassed _)
    | glob hc => exact absurd (.glob hc) (hpassed _)
    | backtick => exact absurd .backtick (hpassed _)
    | command | process | array =>
      obtain ⟨e, he⟩ := exists_offence_parenthesis (Word.rawChars ⟨front⟩)
      exact absurd he (hpassed e)
    | assignment hdollar =>
      exact absurd (.assignment (Word.mem_rawChars hfront (by decide) hdollar)) (hpassed _)
    | directoryStack hc hlast =>
      have hraw := Word.getLast?_rawChars ((Word.getLast?_value hfront (by decide)).1 hlast)
      exact absurd (.directoryStack hc hraw) (hpassed _)
    | transformation hopen hlast =>
      rcases List.eq_nil_or_concat front with rfl | ⟨front, f, rfl⟩
      · exact absurd hopen (by simp [Word.value, Text.OpensBrace])
      rw [List.concat_eq_append] at hfront hpassed hopen hlast ⊢
      cases f with
      | quoted s => exact .parameter hopen List.getLast?_concat
      | raw d =>
        refine absurd (.transformation (Word.opensBrace_rawChars hfront hopen) ?_) (hpassed _)
        rw [Word.value_concat, value, List.getLast?_concat] at hlast
        rwa [Word.rawChars_concat_raw, List.getLast?_concat]
  · intro h
    cases h with
    | parameter hopen hlast =>
      refine ⟨_, .transformation hopen ?_⟩
      rw [← List.append_nil (Word.value _), forall_getLast?_value_append hfront (by simp), hlast]
      exact fun _ => ⟨by simp, by simp⟩

/-- A bare literal adds an offence to a source in which there is none just if it joins it. -/
theorem joins_quoted_iff (hs : ∀ c ∈ s, Text.Styles.isBare c = true)
    (hharmless : (Word.value ⟨front⟩).Harmless) :
    (Word.value ⟨front⟩ ++ s).Harmless ↔ ¬(quoted s).Joins front := by
  rw [Text.harmless_append, and_iff_right hharmless]
  constructor
  · intro h hjoins
    cases hjoins with
    | directoryStack hsign hlast =>
      refine h [] _ (List.prefix_append _ _) _ (.directoryStack hsign ?_)
      exact (getLast?_value_append hfront (by simp) (by decide)).2 ⟨rfl, hlast⟩
    | @transformation s t hopen hlast =>
      rw [List.forall_mem_append] at hs
      refine h s _ (by simp) _ (.transformation ((Text.opensBrace_append hs.1).2 hopen) ?_)
      exact (forall_getLast?_value_append hfront hs.1).2 hlast
  · rintro hjoins before c ⟨after, rfl⟩ e hoffence
    refine hjoins ?_
    rw [List.append_assoc, List.forall_mem_append, List.singleton_append,
      List.forall_mem_cons] at hs
    rw [List.append_assoc, List.singleton_append]
    rcases (Text.offence_of_isBare hs.2.1).1 ⟨e, hoffence⟩ with
      ⟨rfl, hopen, hlast⟩ | ⟨hsign, htilde⟩
    · exact .transformation ((Text.opensBrace_append hs.1).1 hopen)
        ((forall_getLast?_value_append hfront hs.1).1 hlast)
    · obtain ⟨rfl, hlast⟩ := (getLast?_value_append hfront hs.1 (by decide)).1 htilde
      exact .directoryStack hsign hlast

end Fragment

/-! ## The source of a word -/

namespace Word

variable {fs : List Fragment}

theorem joins_concat {f : Fragment} : Joins ⟨fs ++ [f]⟩ ↔ Joins ⟨fs⟩ ∨ f.Joins fs := by
  constructor
  · rintro ⟨front, g, hbegins, hjoins⟩
    rcases List.prefix_concat_iff.1 hbegins with heq | hbegins
    · obtain ⟨rfl, hg⟩ := List.append_inj' heq rfl
      cases hg
      exact .inr hjoins
    · exact .inl ⟨front, g, hbegins, hjoins⟩
  · rintro (⟨front, g, hbegins, hjoins⟩ | hjoins)
    · exact ⟨front, g, hbegins.trans (List.prefix_append _ _), hjoins⟩
    · exact ⟨fs, f, List.prefix_refl _, hjoins⟩

/-- **No character of the source offends just if no fragment of the word joins what stands in front
of it**, where the source characters alone are harmless. -/
theorem harmless_value_iff (hfs : ∀ f ∈ fs, f.IsBare) (hharmless : (rawChars ⟨fs⟩).Harmless) :
    (value ⟨fs⟩).Harmless ↔ ¬Joins ⟨fs⟩ := by
  induction fs using List.reverseRecOn with
  | nil => exact iff_of_true Text.harmless_nil (by simp [Joins])
  | append_singleton fs f ih =>
    rw [List.forall_mem_append, List.forall_mem_singleton] at hfs
    rw [joins_concat, not_or, value_concat]
    cases f with
    | raw c =>
      rw [rawChars_concat_raw, Text.harmless_concat] at hharmless
      rw [Fragment.value, Text.harmless_concat, ih hfs.1 hharmless.1,
        ← Fragment.joins_raw_iff hfs.1 hharmless.2, not_exists]
    | quoted s =>
      rw [rawChars_concat_quoted] at hharmless
      have ih := ih hfs.1 hharmless
      by_cases hfront : (value ⟨fs⟩).Harmless
      · rw [Fragment.value, Fragment.joins_quoted_iff hfs.1 hfs.2.2 hfront,
          and_iff_right (ih.1 hfront)]
      · rw [Fragment.value, Text.harmless_append]
        exact iff_of_false (fun h => hfront h.1) fun h => hfront (ih.2 h.1)

/-- The source is arithmetic that assigns nothing just if the source characters are and no literal
stands among the first three. -/
theorem isPureArithmetic_value (hfs : ∀ f ∈ fs, f.IsBare) :
    isPureArithmetic (value ⟨fs⟩) = true ↔
      isPureArithmetic (rawChars ⟨fs⟩) = true ∧ [.raw '$', .raw '(', .raw '('] <+: fs := by
  have hbegins : ['$', '(', '('] <+: value ⟨fs⟩ ↔ [.raw '$', .raw '(', .raw '('] <+: fs :=
    isPrefix_value hfs (by decide)
  rw [isPureArithmetic_iff_begins, isPureArithmetic_iff_begins, hbegins]
  constructor
  · rintro ⟨⟨rest, rfl⟩, hassigns⟩
    exact ⟨⟨⟨_, rfl⟩, fun hmem => hassigns (rawChars_subset hmem)⟩, rest, rfl⟩
  · rintro ⟨⟨-, hassigns⟩, hfront⟩
    exact ⟨hfront, fun hmem => hassigns (mem_rawChars hfs (by decide) hmem)⟩

end Word

theorem isOk_scan_iff {s : Text} :
    (scan s).isOk = true ↔ isPureArithmetic s = true ∨ s.Harmless := by
  by_cases harithmetic : isPureArithmetic s = true
  · rw [scan_of_isPureArithmetic harithmetic]
    exact iff_of_true rfl (.inl harithmetic)
  · rw [or_iff_right harithmetic]
    rcases s.harmless_or_firstOffence with hharmless | ⟨e, hfirst⟩
    · rw [scan_of_harmless harithmetic hharmless]
      exact iff_of_true rfl hharmless
    · rw [scan_of_firstOffence harithmetic hfirst]
      exact iff_of_false Bool.false_ne_true hfirst.not_harmless

/-- **The accepted words whose source is accepted.** A word whose literals need no quotes is sent as
its characters. If the scanner accepts the word, it accepts what is sent if and only if no fragment
of the word joins what stands in front of it; where the source characters are arithmetic that
assigns nothing, if and only if no literal stands among the first three of them. -/
theorem scan_sourceText_iff {w : Word} (hbare : ∀ f ∈ w.fragments, f.IsBare)
    (hscan : w.isScannable = true) :
    w.sourceText = .ok w.value ∧
      ((scan w.value).isOk = true ↔
        if isPureArithmetic w.rawChars then [.raw '$', .raw '(', .raw '('] <+: w.fragments
        else ¬w.Joins) := by
  refine ⟨Word.sourceText_of_isBare hbare, ?_⟩
  have hvalue := Word.isPureArithmetic_value hbare
  split
  · next harithmetic =>
    rw [and_iff_right harithmetic] at hvalue
    refine ⟨fun hok => ?_, fun hfront => isOk_scan_iff.2 (.inl (hvalue.2 hfront))⟩
    -- what is not taken for arithmetic still has its parentheses
    by_contra hfront
    have hparenthesis : '(' ∈ w.rawChars :=
      (isPureArithmetic_iff_begins.1 harithmetic).1.subset (by simp)
    exact (notMem_of_scan hok (by simpa using mt hvalue.1 hfront)).2
      (Word.rawChars_subset hparenthesis)
  · next harithmetic =>
    have hharmless := (isOk_scan_iff.1 hscan).resolve_left harithmetic
    rw [isOk_scan_iff, or_iff_right (fun h => harithmetic (hvalue.1 h).1),
      Word.harmless_value_iff hbare hharmless]

/-- The literal transforms the parameter in front of it, and the scanner passes the word. -/
theorem scan_sourceText_iff_of_transformation :
    let w : Word := ⟨[.raw '$', .raw '{', .raw 'x', .quoted "@P".toList, .raw '}']⟩
    ((∀ f ∈ w.fragments, f.IsBare) ∧ w.isScannable = true) ∧
      w.sourceText = .ok w.value ∧ w.Joins ∧ scan w.value = .error (.impure .transformation) := by
  intro w
  have hbare : ∀ f ∈ w.fragments, f.IsBare := by
    simp only [w, List.forall_mem_cons]
    exact ⟨trivial, trivial, trivial, ⟨by decide, List.all_eq_true.1 (by decide)⟩, trivial, nofun⟩
  have hscan : w.isScannable = true := by decide
  obtain ⟨hsource, haccepted⟩ := scan_sourceText_iff hbare hscan
  have hrefused : scan w.value = .error (.impure .transformation) := by decide
  rw [hrefused, if_neg (by decide)] at haccepted
  exact ⟨⟨hbare, hscan⟩, hsource, not_not.1 fun h => Bool.false_ne_true (haccepted.2 h), hrefused⟩

end ShellFold
