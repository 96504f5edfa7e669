import ShellFold.Proofs.Expansion.Literal
import ShellFold.Scan

/-!
# Words without anything to expand

What the scanner leaves untouched expands to literal text, whatever the scope is
(`Scope.isOk_expandWord_of_untouched`), unless a backslash of the source stands directly in front of
a literal: then it takes the first character of the quoted form, which may be the quote
(`Word.escapesLiteral`).
-/

set_option autoImplicit false

namespace ShellFold

/-! ## What the scanner passes -/

namespace Scanner

/-- A character that no rule of expansion and no rejection is about. -/
def passes (c : Char) : Bool := !expandsWord c && c != '\x60'

theorem passes_of_foldlM {s : Text} {scanner last : Scanner}
    (h : s.foldlM step scanner = .ok last) (hlast : last.needsExpansion = false) :
    scanner.needsExpansion = false ∧ ∀ c ∈ s, passes c = true := by
  induction s generalizing scanner with
  | nil =>
    cases h
    exact ⟨hlast, by simp⟩
  | cons c s ih =>
    rw [List.foldlM_cons] at h
    obtain ⟨next, hnext, h⟩ := bind_eq_ok.1 h
    obtain ⟨hneeds, hs⟩ := ih h
    unfold step at hnext
    split at hnext
    · cases hnext
    · next hoffence =>
      cases hnext
      simp only [advance, Bool.or_eq_false_iff] at hneeds
      refine ⟨hneeds.1, List.forall_mem_cons.2 ⟨?_, hs⟩⟩
      have hbacktick : c ≠ '\x60' := by
        rintro rfl
        simp [offence?] at hoffence
      simp [passes, hneeds.2, hbacktick]

end Scanner

theorem Word.passes_of_scan {w : Word} (h : w.scan = .ok .untouched) :
    ∀ c ∈ w.rawChars, Scanner.passes c = true := by
  unfold Word.scan ShellFold.scan at h
  split at h
  · cases h
  · rcases hfold : w.rawChars.foldlM Scanner.step {} with e | last
    · rw [hfold] at h
      cases h
    · rw [hfold] at h
      refine (Scanner.passes_of_foldlM hfold ?_).2
      cases hneeds : last.needsExpansion
      · rfl
      · simp [Functor.map, Except.map, Scanner.verdict, hneeds] at h

theorem Scanner.isPlain_of_passes {c : Char} (h : passes c = true) (hc : c ≠ '\\') :
    Quoting.isPlain c = true := by
  simp only [passes, expandsWord, Bool.and_eq_true, Bool.not_eq_true', Bool.or_eq_false_iff,
    decide_eq_false_iff_not, bne_iff_ne] at h
  simp [Quoting.isPlain, h, hc]

/-! ## Backslashes in front of literals -/

/-- Whether a backslash of the source takes the meaning from the first character of a literal's
quoted form; `escaping` tells whether one stands in front. -/
def Fragment.anyEscaped (escaping : Bool) : List Fragment → Bool
  | [] => false
  | .raw c :: fragments => anyEscaped (c = '\\' && !escaping) fragments
  | .quoted _ :: fragments => escaping || anyEscaped false fragments

/-- Whether a backslash of the source stands directly in front of a literal and is not itself
escaped. -/
def Word.escapesLiteral (w : Word) : Bool := Fragment.anyEscaped false w.fragments

/-- The source of fragments for a reader: source characters as they are, and for each literal
something that is read as literal pieces. -/
inductive Fragment.Source (q : Quoting) : List Fragment → Text → Prop
  | nil : Source q [] []
  | raw {c : Char} {fragments : List Fragment} {t : Text} : Source q fragments t →
      Source q (.raw c :: fragments) (c :: t)
  | literal {s u : Text} {fragments : List Fragment} {t : Text} :
      (∀ rest, ∃ parts : List Text,
        Piece.read q (u ++ rest) = parts.map .text ++ Piece.read q rest) →
      Source q fragments t → Source q (.quoted s :: fragments) (u ++ t)

theorem Fragment.source_of_sourceText {fragments : List Fragment} : ∀ {t : Text},
    Word.sourceText ⟨fragments⟩ = .ok t → Source .bare fragments t := by
  induction fragments with
  | nil =>
    intro t h
    cases h
    exact .nil
  | cons f fragments ih =>
    intro t h
    rw [Word.sourceText_cons] at h
    obtain ⟨u, hu, h⟩ := bind_eq_ok.1 h
    obtain ⟨t, ht, h⟩ := bind_eq_ok.1 h
    cases h
    cases f with
    | raw c =>
      cases hu
      exact .raw (ih ht)
    | quoted s =>
      refine .literal (fun rest => ?_) (ih ht)
      have hw := Text.written_of_quote? (quoteLiteral_eq_ok.1 hu)
      obtain ⟨parts, hread, -⟩ := Piece.read_written hw rest
      exact ⟨parts, hread⟩

theorem Fragment.source_heredocText (fragments : List Fragment) :
    Source .document fragments (Word.heredocText ⟨fragments⟩) := by
  induction fragments with
  | nil => exact .nil
  | cons f fragments ih =>
    cases f with
    | raw c => exact .raw ih
    | quoted s => exact .literal (fun rest => ⟨_, Piece.read_heredocText s rest⟩) ih

/-- Source that the scanner passes is read as literal pieces, also where a backslash stands in
front, if no literal is escaped. -/
theorem Fragment.Source.read {q : Quoting} (hq : q.atEnd = .nothing)
    {fragments : List Fragment} {t : Text} (h : Source q fragments t)
    (hpasses : ∀ c ∈ Word.rawChars ⟨fragments⟩, Scanner.passes c = true) :
    (anyEscaped false fragments = false →
      ∃ parts : List Text, Piece.read q t = parts.map .text) ∧
    (anyEscaped true fragments = false →
      ∃ parts : List Text, Piece.read q ('\\' :: t) = parts.map .text) := by
  induction h with
  | nil =>
    refine ⟨fun _ => ⟨[], ?_⟩, fun _ => ⟨[['\\']], ?_⟩⟩
    · rw [Piece.read_nil, hq]
      rfl
    · rw [Piece.read_text rfl, Piece.read_nil, hq]
      rfl
  | @raw c fragments t _ ih =>
    rw [Word.rawChars_raw, List.forall_mem_cons] at hpasses
    obtain ⟨hplain, hescaped⟩ := ih hpasses.2
    constructor
    · intro hnone
      by_cases hc : c = '\\'
      · subst hc
        exact hescaped hnone
      · simp only [anyEscaped, hc, decide_false, Bool.false_and] at hnone
        obtain ⟨parts, hparts⟩ := hplain hnone
        have hstep := Quoting.step_plain (Scanner.isPlain_of_passes hpasses.1 hc) q t
        exact ⟨[c] :: parts, by rw [Piece.read_text hstep, hparts, List.map_cons]⟩
    · intro hnone
      simp only [anyEscaped, Bool.not_true, Bool.and_false] at hnone
      obtain ⟨parts, hparts⟩ := hplain hnone
      by_cases hc : c = '\n'
      · subst hc
        exact ⟨parts, by rw [Piece.read_nothing rfl, hparts]⟩
      · have hstep : q.step '\\' (c :: t) =
            ⟨.text (if q.escapes c then [c] else ['\\', c]), q, t⟩ := by
          simp [Quoting.step, Quoting.stepEscape, hc]
        exact ⟨_ :: parts, by rw [Piece.read_text hstep, hparts, List.map_cons]⟩
  | @literal s u fragments t hliteral _ ih =>
    rw [Word.rawChars_quoted] at hpasses
    refine ⟨fun hnone => ?_, fun hnone => by cases hnone⟩
    obtain ⟨parts, hparts⟩ := (ih hpasses).1 hnone
    obtain ⟨front, hfront⟩ := hliteral t
    exact ⟨front ++ parts, by rw [hfront, hparts, List.map_append]⟩

/-! ## Expansion -/

/-- Only a NUL in a literal keeps a word from being written as source. -/
theorem Word.exists_sourceText {fragments : List Fragment}
    (h : ∀ s, .quoted s ∈ fragments → '\x00' ∉ s) :
    ∃ t, Word.sourceText ⟨fragments⟩ = .ok t := by
  induction fragments with
  | nil => exact ⟨[], rfl⟩
  | cons f fragments ih =>
    obtain ⟨t, ht⟩ := ih fun s hs => h s (.tail _ hs)
    cases f with
    | raw c => exact ⟨c :: t, by rw [sourceText_cons, ht]; rfl⟩
    | quoted s =>
      obtain ⟨u, hu⟩ := exists_quote? (h s (.head _))
      refine ⟨u ++ t, ?_⟩
      rw [sourceText_cons, Fragment.sourceText_quoted, quoteLiteral_eq_ok.2 hu, ht]
      rfl

theorem Word.notMem_of_quoted {w : Word} {c : Char} (h : c ∉ w.value) {s : Text}
    (hs : .quoted s ∈ w.fragments) : c ∉ s :=
  fun hc => h (List.mem_flatMap.2 ⟨.quoted s, hs, hc⟩)

theorem Word.head?_sourceText {fragments : List Fragment} {t : Text}
    (h : Word.sourceText ⟨fragments⟩ = .ok t)
    (hpasses : ∀ c ∈ Word.rawChars ⟨fragments⟩, Scanner.passes c = true) : t.head? ≠ some '~' := by
  cases fragments with
  | nil =>
    cases h
    simp
  | cons f fragments =>
    rw [sourceText_cons] at h
    obtain ⟨u, hu, h⟩ := bind_eq_ok.1 h
    obtain ⟨t, -, h⟩ := bind_eq_ok.1 h
    cases h
    cases f with
    | raw c =>
      cases hu
      rintro ⟨⟩
      exact absurd (hpasses '~' (.head _)) (by decide)
    | quoted s =>
      have hs := quoteLiteral_eq_ok.1 hu
      have hhead := Scope.head?_written (Text.written_of_quote? hs)
      obtain ⟨c, u, rfl⟩ := List.exists_cons_of_ne_nil (Text.ne_nil_of_quote? hs)
      exact hhead

theorem Scope.isOk_expand_of_read {scope : Scope} {mode : Mode} {s : Text} {parts : List Text}
    (h : Piece.ofText mode s = parts.map .text) : (scope.expand mode s).isOk = true := by
  rw [Scope.expand, h, Piece.evalAll_map_text]
  rfl

/-- **A word that the scanner leaves untouched expands in every scope and mode**, unless a
backslash of its source escapes a literal. -/
theorem Scope.isOk_expandWord_of_untouched (scope : Scope) (mode : Mode) {w : Word}
    (hscan : w.scan = .ok .untouched) (hescapes : w.escapesLiteral = false)
    (hnul : '\x00' ∉ w.value) : (scope.expandWord mode w).isOk = true := by
  have hpasses := Word.passes_of_scan hscan
  by_cases hmode : mode = .heredoc
  · subst hmode
    obtain ⟨parts, hparts⟩ :=
      ((Fragment.source_heredocText w.fragments).read rfl hpasses).1 hescapes
    have hread : Piece.ofText .heredoc w.heredocText = parts.map .text := by
      rw [Piece.ofText, if_pos rfl, hparts]
    rw [expandWord, Word.sourceIn, if_pos rfl, ok_bind]
    exact isOk_expand_of_read hread
  · obtain ⟨t, ht⟩ := Word.exists_sourceText fun _ => Word.notMem_of_quoted hnul
    obtain ⟨parts, hparts⟩ := ((Fragment.source_of_sourceText ht).read rfl hpasses).1 hescapes
    have hhead := Word.head?_sourceText ht hpasses
    have hread : Piece.ofText mode t = parts.map .text := by
      rw [Piece.ofText, if_neg hmode, if_neg fun hc => hhead hc.1, hparts]
    rw [expandWord, Word.sourceIn, if_neg hmode, ht, ok_bind]
    exact isOk_expand_of_read hread

end ShellFold
