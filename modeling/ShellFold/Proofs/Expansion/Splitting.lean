import ShellFold.Builtin
import ShellFold.Proofs.Expansion.Emission

/-!
# Splitting a word into fields

Whether a word expands, and what it fails with, does not depend on whether fields are split; and
where it expands, the fields hold the characters of the unsplit text in their order, but for blanks
(`Builtin.expand_split_noSplit`).
-/

set_option autoImplicit false

namespace ShellFold

/-- Outside here-documents a word is read alike in all modes. -/
theorem Piece.ofText_of_ne_heredoc {mode mode' : Mode} (hmode : mode ≠ .heredoc)
    (hmode' : mode' ≠ .heredoc) (s : Text) : ofText mode s = ofText mode' s := by
  rw [ofText, ofText, if_neg hmode, if_neg hmode']

/-- **Splitting only moves blanks.** In every state, a text expands to fields where they are split
just if it expands where they are not, and fails with the same failure otherwise. Where it expands,
the fields together and the unsplit value are the same text but for blanks. -/
theorem Builtin.expand_split_noSplit (builtin : Builtin) (s : Text) :
    let split := ((Oracle.expand s .split).outcome builtin).1
    let unsplit := ((Oracle.expand s .noSplit).outcome builtin).1
    (∃ e, split = .error e ∧ unsplit = .error e) ∨
      ∃ fields value, split = .ok fields ∧ unsplit = .ok [value] ∧
        Text.unblanked fields.flatten = value.unblanked := by
  intro split unsplit
  let pieces := Piece.ofText .noSplit s
  have hread : Piece.ofText .split s = pieces :=
    Piece.ofText_of_ne_heredoc (by decide) (by decide) s
  have hsplit : split = Piece.evalAll builtin.scope true pieces {} >>=
      fun fields => .ok (fields.finish true) := by
    rw [← hread]
    rfl
  have hunsplit : unsplit = Piece.evalAll builtin.scope false pieces {} >>=
      fun fields => .ok [fields.current] := rfl
  rw [hsplit, hunsplit]
  rcases Piece.evalAll_emits builtin.scope pieces with ⟨e, hfails⟩ | ⟨t, hadds, ht⟩
  · refine .inl ⟨e, ?_, ?_⟩
    · rw [hfails true {} (Fields.sound_empty true), error_bind]
    · rw [hfails false {} (Fields.sound_empty false), error_bind]
  · obtain ⟨fields, hfields, hsplits⟩ := (hadds true).flatten_finish (Fields.sound_empty true)
    obtain ⟨last, hlast, hcurrent⟩ := (hadds false).flatten_finish (Fields.sound_empty false)
    refine .inr ⟨fields.finish true, last.current, by rw [hfields, ok_bind],
      by rw [hlast, ok_bind], ?_⟩
    have hvalue : last.current = t false := by simpa [Fields.finish, Fields.text] using hcurrent
    rw [hsplits, hvalue]
    exact ht

end ShellFold
