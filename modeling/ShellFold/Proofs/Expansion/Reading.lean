import ShellFold.Proofs.Expansion.Steps
import ShellFold.Proofs.Text.Written
import ShellFold.Word

/-!
# Reading step by step

One equation of `Piece.read` for each lexeme that a step can find, and what the reader makes of
quoted source: `read_written` says that text written by quoting is read as literal pieces that
spell it, and that the reader then stands where it stood before, outside quotes.
-/

set_option autoImplicit false

namespace ShellFold

namespace Piece

variable {q q' : Quoting} {c : Char} {rest rest' s : Text}

theorem read_nil (q : Quoting) :
    read q [] = match q.atEnd with
      | .text s => [text s]
      | .failure e => [failure e]
      | .nothing | .reference _ => [] := by
  unfold read
  cases q <;> rfl

/-- The pieces that begin with a step, by what the step finds. -/
theorem read_cons (q : Quoting) (c : Char) (rest : Text) :
    read q (c :: rest) =
      match (q.step c rest).lexeme with
      | .nothing => read (q.step c rest).quoting (q.step c rest).rest
      | .text s => text s :: read (q.step c rest).quoting (q.step c rest).rest
      | .failure e => [failure e]
      | .reference ref =>
        ofReference q.isQuoted (read (if q.isQuoted then .nested false else .bare) ref.word) ref ::
          read (q.step c rest).quoting (q.step c rest).rest := by
  rw [read]
  split <;> simp_all

theorem read_nothing (h : q.step c rest = ⟨.nothing, q', rest'⟩) :
    read q (c :: rest) = read q' rest' := by
  rw [read_cons, h]

theorem read_text (h : q.step c rest = ⟨.text s, q', rest'⟩) :
    read q (c :: rest) = text s :: read q' rest' := by
  rw [read_cons, h]

end Piece

namespace Quoting

/-- The characters that no place in a word gives a meaning to. -/
def isPlain (c : Char) : Bool := c ∉ ['\\', '$', '\x60', '"', '\'', '[']

theorem step_plain {c : Char} (h : isPlain c = true) (q : Quoting) (rest : Text) :
    q.step c rest = ⟨.text [c], q, rest⟩ := by
  simp only [isPlain, List.mem_cons, List.not_mem_nil, or_false, not_or, decide_eq_true_eq] at h
  simp [step, h]

/-- Of a kind to which no character with a meaning belongs, all are plain. -/
theorem isPlain_of_kind {p : Char → Bool} {c : Char} (h : p c = true)
    (hp : ['\\', '$', '\x60', '"', '\'', '['].any p = false) : isPlain c = true := by
  rw [isPlain, decide_eq_true_eq]
  exact Text.notMem_of_kind h hp

end Quoting

namespace Piece

open Quoting

/-- Text without a meaning is read one character at a time. -/
theorem read_plain {s : Text} (h : ∀ c ∈ s, isPlain c = true) (q : Quoting) (rest : Text) :
    read q (s ++ rest) = (s.map ([·])).map text ++ read q rest := by
  induction s with
  | nil => rfl
  | cons c s ih =>
    obtain ⟨hc, hs⟩ := List.forall_mem_cons.1 h
    rw [List.cons_append, read_text (step_plain hc q _), ih hs]
    rfl

theorem read_bare_plain {s : Text} (h : ∀ c ∈ s, isPlain c = true) :
    read .bare s = (s.map ([·])).map text := by
  have hread := read_plain h .bare []
  rwa [List.append_nil, read_nil, atEnd, List.append_nil] at hread

/-- A single-quoted run is one literal. -/
theorem read_single {run : Text} (h : '\'' ∉ run) (rest : Text) :
    read .bare ('\'' :: (run ++ '\'' :: rest)) = text run :: read .bare rest := by
  apply read_text
  simp [step, stepSingle, Text.splitOnce?_append h]

/-- A double-quoted run without dollar signs and backticks is read one character at a time, and
its end counts as content. -/
theorem read_double {run : Text} (h : ∀ c ∈ run, c ≠ '$' ∧ c ≠ '\x60') (rest : Text) :
    read .bare ('"' :: (run.flatMap Text.Styles.escapeInDouble ++ '"' :: rest)) =
      (run.map ([·]) ++ [[]]).map text ++ read .bare rest := by
  have hopen : ∀ s, read .bare ('"' :: s) = read (.quoted false) s := fun s => read_nothing rfl
  rw [hopen]
  induction run with
  | nil => exact read_text (by simp [step, stepQuote, closing])
  | cons c run ih =>
    have hc := h c (.head _)
    have ih := ih fun d hd => h d (.tail _ hd)
    simp only [List.flatMap_cons, List.map_cons, List.cons_append, List.append_assoc]
    by_cases he : c = '"' ∨ c = '\\'
    · simp only [Text.Styles.escapeInDouble, if_pos he, ← ih, List.cons_append, List.nil_append]
      refine read_text ?_
      rcases he with rfl | rfl <;> rfl
    · simp only [Text.Styles.escapeInDouble, if_neg he, ← ih, List.cons_append, List.nil_append]
      refine read_text ?_
      rw [not_or] at he
      simp [step, hc, he]

/-- Quoted source is read as literals that spell the text it was written for. -/
theorem read_written {s t : Text} (h : Text.Written s t) (rest : Text) :
    ∃ parts : List Text, read .bare (t ++ rest) = parts.map text ++ read .bare rest ∧
      parts.flatten = s ∧ (t ≠ [] → parts ≠ []) := by
  induction h with
  | nil => exact ⟨[], rfl, rfl, by simp⟩
  | @bare c s t hc _ ih =>
    obtain ⟨parts, hread, hs, -⟩ := ih
    refine ⟨[c] :: parts, ?_, by simp [hs], by simp⟩
    rw [List.cons_append, read_text (step_plain (isPlain_of_kind hc (by decide)) _ _), hread]
    rfl
  | @single run s t hr _ ih =>
    obtain ⟨parts, hread, hs, -⟩ := ih
    refine ⟨run :: parts, ?_, by simp [hs], by simp⟩
    have := read_single (fun hc => (hr _ hc).1 rfl) (t ++ rest)
    simpa [hread] using this
  | @double run s t hr _ ih =>
    obtain ⟨parts, hread, hs, -⟩ := ih
    refine ⟨run.map ([·]) ++ [[]] ++ parts, ?_, by simp [hs, ← List.flatMap_def], by simp⟩
    have := read_double hr (t ++ rest)
    simpa [hread] using this

/-- A literal in a here-document, its special characters escaped, is read one character at a
time. -/
theorem read_heredocText (s rest : Text) :
    read .document ((Fragment.quoted s).heredocText ++ rest) =
      (s.map ([·])).map text ++ read .document rest := by
  induction s with
  | nil => rfl
  | cons c s ih =>
    simp only [Fragment.heredocText, List.flatMap_cons, List.map_cons, List.cons_append,
      List.append_assoc] at ih ⊢
    by_cases hc : Fragment.isHeredocSpecial c = true
    · simp only [if_pos hc, List.cons_append, List.nil_append, ← ih]
      refine read_text ?_
      simp only [Fragment.isHeredocSpecial, Bool.or_eq_true, decide_eq_true_eq] at hc
      rcases hc with (rfl | rfl) | rfl <;> rfl
    · simp only [if_neg hc, List.cons_append, List.nil_append, ← ih]
      refine read_text ?_
      simp only [Fragment.isHeredocSpecial, Bool.or_eq_true, decide_eq_true_eq, not_or] at hc
      by_cases hq : c = '"'
      · subst hq
        rfl
      · simp [step, hc, hq]

/-- The here-document source of literals is read as literals that spell their value. -/
theorem read_document_literals {fs : List Fragment} (h : (Word.mk fs).isLiteral = true) :
    read .document (Word.mk fs).heredocText = ((Word.mk fs).value.map ([·])).map text := by
  induction fs with
  | nil => exact read_nil .document
  | cons f fs ih =>
    cases f with
    | raw c => simp [Word.isLiteral, Fragment.rawChar?] at h
    | quoted s =>
      have ih := ih (by simpa [Word.isLiteral, Fragment.rawChar?] using h)
      simp only [Word.heredocText, Word.value, List.flatMap_cons, List.map_append] at ih ⊢
      rw [read_heredocText, ih, Fragment.value]

end Piece

end ShellFold
