import ShellFold.Builtin
import ShellFold.Proofs.Expansion.Reading
import ShellFold.Proofs.Word

/-!
# Literals expand to themselves

The value of the pieces that quoted source is read as: `evalAll_texts` adds literal pieces to the
fields, `Word.written_sourceText` says that the source of a word of literals spells its value, and
`expand_literals` that every mode takes such a word back to that value, in any state of the
oracle.
-/

set_option autoImplicit false

namespace ShellFold

/-- A text is made of its characters. -/
theorem Text.flatten_characters (s : Text) : (s.map ([·])).flatten = s := by
  rw [← List.flatMap_def, List.flatMap_singleton']

namespace Fields

@[simp] theorem literal_literal (fields : Fields) (s t : Text) :
    (fields.literal s).literal t = fields.literal (s ++ t) := by
  simp [literal]

theorem foldl_literal (parts : List Text) (fields : Fields) (s : Text) :
    parts.foldl literal (fields.literal s) = fields.literal (s ++ parts.flatten) := by
  induction parts generalizing s with
  | nil => simp
  | cons part parts ih => rw [List.foldl_cons, literal_literal, ih, List.flatten_cons,
      List.append_assoc]

/-- Literal parts add up to one, if there is any. -/
theorem foldl_literal_of_ne_nil {parts : List Text} (h : parts ≠ []) (fields : Fields) :
    parts.foldl literal fields = fields.literal parts.flatten := by
  cases parts with
  | nil => exact absurd rfl h
  | cons part parts => rw [List.foldl_cons, foldl_literal, List.flatten_cons]

/-- A literal alone is one field, whether fields are split or not. -/
theorem finish_literal (split : Bool) (s : Text) :
    (({} : Fields).literal s).finish split = [s] := by
  cases split <;> simp [finish, literal, endField]

theorem current_foldl_literal (parts : List Text) (fields : Fields) :
    (parts.foldl literal fields).current = fields.current ++ parts.flatten := by
  induction parts generalizing fields with
  | nil => simp
  | cons part parts ih => rw [List.foldl_cons, ih, literal, List.flatten_cons, List.append_assoc]

end Fields

namespace Piece

/-- Literal pieces are added to the fields as they are. -/
theorem evalAll_texts (scope : Scope) (split : Bool) (parts : List Text) (pieces : List Piece)
    (fields : Fields) :
    evalAll scope split (parts.map text ++ pieces) fields =
      evalAll scope split pieces (parts.foldl Fields.literal fields) := by
  induction parts generalizing fields with
  | nil => rfl
  | cons part parts ih =>
    rw [List.map_cons, List.cons_append, evalAll, eval]
    exact ih _

theorem evalAll_map_text (scope : Scope) (split : Bool) (parts : List Text) (fields : Fields) :
    evalAll scope split (parts.map text) fields = .ok (parts.foldl Fields.literal fields) := by
  rw [← List.append_nil (parts.map text), evalAll_texts, evalAll]

/-- A parameter between literal pieces. -/
theorem evalAll_value_between (scope : Scope) (split quoted : Bool) (name : Text)
    (before behind : List Text) (fields : Fields) :
    evalAll scope split (before.map text ++ .value quoted name :: behind.map text) fields =
      scope.emitValue split quoted name (before.foldl Fields.literal fields) >>=
        fun fields => .ok (behind.foldl Fields.literal fields) := by
  rw [evalAll_texts, evalAll, eval]
  exact congrArg _ (funext (evalAll_map_text scope split behind))

/-- Quoted source adds the text it was written for. -/
theorem evalAll_written {s t : Text} (h : Text.Written s t) (ht : t ≠ []) (scope : Scope)
    (split : Bool) (rest : Text) (fields : Fields) :
    evalAll scope split (read .bare (t ++ rest)) fields =
      evalAll scope split (read .bare rest) (fields.literal s) := by
  obtain ⟨parts, hread, rfl, hne⟩ := read_written h rest
  rw [hread, evalAll_texts, Fields.foldl_literal_of_ne_nil (hne ht)]

theorem evalAll_read_nil (scope : Scope) (split : Bool) {q : Quoting} (hq : q.atEnd = .nothing)
    (fields : Fields) : evalAll scope split (read q []) fields = .ok fields := by
  rw [read_nil, hq, evalAll]

end Piece

namespace Scope

/-- No tilde stands at the front of what quoting writes. -/
theorem head?_written {s t : Text} (h : Text.Written s t) : t.head? ≠ some '~' := by
  cases h with
  | nil => simp
  | bare hc _ =>
    intro heq
    cases heq
    simp [Text.Styles.isBare] at hc
  | single _ _ => simp
  | double _ _ => simp

/-- Quoted source expands to the text it was written for, unless it is read as a here-document. -/
theorem expand_written (scope : Scope) {s t : Text} (h : Text.Written s t) (ht : t ≠ [])
    {mode : Mode} (hmode : mode ≠ .heredoc) : scope.expand mode t = .ok [s] := by
  have hpieces : Piece.ofText mode t = Piece.read .bare (t ++ []) := by
    rw [Piece.ofText, if_neg hmode, if_neg fun hc => head?_written h hc.1, List.append_nil]
  rw [expand, hpieces, Piece.evalAll_written h ht, Piece.evalAll_read_nil _ _ rfl, ok_bind]
  exact congrArg Except.ok (Fields.finish_literal _ s)

/-- What is read as literal pieces stands behind the text that is there already, where fields are
not split. -/
theorem finish_texts (scope : Scope) (fields : Fields) (parts : List Text) :
    (Piece.evalAll scope false (parts.map .text) fields >>=
      fun fields => .ok (fields.finish false)) = .ok [fields.current ++ parts.flatten] := by
  rw [Piece.evalAll_map_text, ok_bind, ← Fields.current_foldl_literal]
  rfl

/-- A word that is read as literal pieces expands to them, where fields are not split. -/
theorem expand_texts (scope : Scope) {mode : Mode} (hmode : mode ≠ .split) {s : Text}
    {parts : List Text} (h : Piece.ofText mode s = parts.map .text) :
    scope.expand mode s = .ok [parts.flatten] := by
  have hsplits : mode.splits = false := by simp [Mode.splits, hmode]
  rw [expand, h, hsplits]
  exact scope.finish_texts {} parts

/-- Text without a meaning stands behind the text that is there already. -/
theorem finish_plain (scope : Scope) (fields : Fields) {rest : Text}
    (hrest : ∀ c ∈ rest, Quoting.isPlain c = true) :
    (Piece.evalAll scope false (Piece.read .bare rest) fields >>=
      fun fields => .ok (fields.finish false)) = .ok [fields.current ++ rest] := by
  rw [Piece.read_bare_plain hrest, finish_texts, Text.flatten_characters]

/-- Text without a meaning expands to itself. -/
theorem expand_plain (scope : Scope) {mode : Mode} (hmode : mode ≠ .split) {s : Text}
    (h : Piece.ofText mode s = Piece.read .bare s) (hs : ∀ c ∈ s, Quoting.isPlain c = true) :
    scope.expand mode s = .ok [s] := by
  rw [scope.expand_texts hmode (h.trans (Piece.read_bare_plain hs)), Text.flatten_characters]

/-- The here-document source of literals expands to their value. -/
theorem expand_heredocText (scope : Scope) {w : Word} (hw : w.isLiteral = true) :
    scope.expand .heredoc w.heredocText = .ok [w.value] := by
  have hpieces : Piece.ofText .heredoc w.heredocText = (w.value.map ([·])).map Piece.text := by
    rw [Piece.ofText, if_pos rfl, Piece.read_document_literals hw]
  rw [scope.expand_texts (by decide) hpieces, Text.flatten_characters]

end Scope

/-! ## Words -/

/-- The source of a word for a mode. -/
def Word.sourceIn (mode : Mode) (w : Word) : Except Failure Text :=
  if mode = .heredoc then .ok w.heredocText else w.sourceText

/-- What a word expands to. -/
def Scope.expandWord (scope : Scope) (mode : Mode) (w : Word) : Except Failure (List Text) := do
  scope.expand mode (← w.sourceIn mode)

namespace Scope

/-- A literal expands to its text. -/
theorem expandWord_literal (scope : Scope) (mode : Mode) {s : Text} (hs : '\x00' ∉ s) :
    scope.expandWord mode (.literal s) = .ok [s] := by
  rw [Scope.expandWord, Word.sourceIn]
  split
  · next hmode =>
    subst hmode
    have := expand_heredocText scope (w := .literal s) rfl
    rwa [Word.value_literal] at this
  · next hmode =>
    obtain ⟨t, ht⟩ := exists_quote? hs
    rw [Word.sourceText_literal ht, ok_bind]
    exact expand_written scope (Text.written_of_quote? ht) (Text.ne_nil_of_quote? ht) hmode

end Scope

theorem Builtin.outcome_expand (builtin : Builtin) (s : Text) (mode : Mode) :
    (Oracle.expand s mode).outcome builtin = (builtin.scope.expand mode s, builtin) := rfl

/-- **Literals expand to themselves.** In any state of the oracle, the source of a word of
literals expands to the concatenation of their texts and nothing else, in every mode. -/
theorem expand_literals (builtin : Builtin) (w : Word) (hne : w.fragments ≠ [])
    (hlit : w.isLiteral = true) (hnul : '\x00' ∉ w.value) :
    (∃ source, w.sourceText = .ok source ∧ ∀ mode, mode ≠ .heredoc →
      (Oracle.expand source mode).outcome builtin = (.ok [w.value], builtin)) ∧
    (Oracle.expand w.heredocText .heredoc).outcome builtin = (.ok [w.value], builtin) := by
  obtain ⟨source, hsource, hwritten, hsource_ne⟩ := Word.written_sourceText hlit hnul
  refine ⟨⟨source, hsource, fun mode hmode => ?_⟩, ?_⟩
  · rw [Builtin.outcome_expand, Scope.expand_written _ hwritten (hsource_ne hne) hmode]
  · rw [Builtin.outcome_expand, Scope.expand_heredocText _ hlit]

/-- Quotes of both kinds, a dollar sign, a tilde at the front, a caret, a newline and an empty
literal, where fields are split at blanks and tildes expand. -/
theorem expand_literals_of_specials :
    let vars : Variables := Variables.ofList
      [("HOME".toList, { value := "/home/u".toList }), ("IFS".toList, { value := " ".toList })]
    let builtin : Builtin := { scope := { vars } }
    let w : Word := ⟨[.quoted "~it's \\ $5".toList, .quoted [], .quoted "^\n\"".toList]⟩
    (w.fragments ≠ [] ∧ w.isLiteral = true ∧ '\x00' ∉ w.value) ∧
      (∃ source, w.sourceText = .ok source ∧ ∀ mode, mode ≠ .heredoc →
        (Oracle.expand source mode).outcome builtin = (.ok [w.value], builtin)) ∧
      (Oracle.expand w.heredocText .heredoc).outcome builtin = (.ok [w.value], builtin) := by
  intro vars builtin w
  have hne : w.fragments ≠ [] := by decide
  have hlit : w.isLiteral = true := by decide
  have hnul : '\x00' ∉ w.value := by decide
  exact ⟨⟨hne, hlit, hnul⟩, expand_literals builtin w hne hlit hnul⟩

end ShellFold
