import ShellFold.Proofs.Expansion.Braces
import ShellFold.Proofs.Expansion.Emission
import ShellFold.Proofs.Expansion.Literal
import ShellFold.Proofs.Expansion.Tilde

/-!
# Default words

A word that takes the place of an unset variable expands as it does on its own, but for a tilde at
its front, which is taken for a plain character there (`Scope.expand_default_of_unset`). So the two
expansions of a word with a tilde that succeed are the same just if the home directory is named by a
tilde (`Builtin.expand_default_iff`).
-/

set_option autoImplicit false

namespace ShellFold

/-- Both expansions fail, with failures of one kind. -/
def FailAlike (x y : Except Failure (List Text)) : Prop :=
  ∃ e e', x = .error e ∧ y = .error e' ∧ e.kind = e'.kind

/-- The expansions yield the same fields, or fail alike. -/
def EndAlike (x y : Except Failure (List Text)) : Prop := x = y ∨ FailAlike x y

namespace Scope

variable (scope : Scope) {mode : Mode} (hmode : mode ≠ .heredoc) {w : Text}

include hmode in
/-- **The default word of an unset variable** is expanded as on its own, with a backslash in front
of its tilde. -/
theorem expand_default_of_unset (nonEmpty : Bool) {name : Text} (hname : name.isName = true)
    (hunset : scope.value? name = none) (hword : w.IsBraceless) :
    scope.expand mode (Choice.default.source nonEmpty name w) =
      scope.expand mode (if w.HasTilde then '\\' :: w else w) := by
  rw [scope.expand_default nonEmpty hname hword hmode, hunset, if_neg (by simp [counts])]
  split
  · next h => rw [expand_escaped_tilde hmode h]
  · next h =>
    rw [expand, Piece.ofText_of_not_hasTilde hmode h]
    rfl

/-- Behind two texts the rest of a word adds the same, or fails. -/
theorem evalAll_literal (split : Bool) (pieces : List Piece) :
    (∃ e, ∀ s, Piece.evalAll scope split pieces (Fields.literal {} s) = .error e) ∨
      ∃ t, ∀ s, ∃ fields, Piece.evalAll scope split pieces (Fields.literal {} s) = .ok fields ∧
        (fields.finish split).flatten = s ++ t := by
  rcases Piece.evalAll_emits scope pieces with ⟨e, he⟩ | ⟨t, ht, -⟩
  · exact .inl ⟨e, fun s => he split _ ((Fields.sound_empty split).literal s).1⟩
  · refine .inr ⟨t split, fun s => ?_⟩
    obtain ⟨hsound, htext⟩ := (Fields.sound_empty split).literal s
    obtain ⟨fields, hfields, hadded⟩ := (ht split).flatten_finish hsound
    exact ⟨fields, hfields, by rw [hadded, htext]; rfl⟩

include hmode in
/-- A tilde and the home directory add different texts, unless the directory is a tilde. -/
theorem eq_tilde_of_expand_eq {scope : Scope} {directory : Text} {fields : List Text}
    (htilde : w.HasTilde) (hlone : Piece.tildeWord w = ['~'])
    (hhome : scope.value? "HOME".toList = some directory)
    (hescaped : scope.expand mode ('\\' :: w) = .ok fields)
    (hown : scope.expand mode w = .ok fields) : directory = ['~'] := by
  rw [expand_escaped_home hmode htilde hlone] at hescaped
  rw [expand_home hmode htilde hlone hhome] at hown
  rcases scope.evalAll_literal mode.splits
    (Piece.read .bare (w.dropWhile (· ≠ '/'))) with ⟨e, hfails⟩ | ⟨t, hadds⟩
  · rw [hfails] at hown
    cases hown
  · obtain ⟨first, hfirst, hflatten⟩ := hadds ['~']
    obtain ⟨second, hsecond, hflatten'⟩ := hadds directory
    rw [hfirst] at hescaped
    rw [hsecond] at hown
    cases hescaped
    have hsame : second.finish mode.splits = first.finish mode.splits := Except.ok.inj hown
    rw [hsame, hflatten] at hflatten'
    exact List.append_cancel_right hflatten'.symm

end Scope

/-- **Default words and words on their own.** Let a variable not be set, and let a word hold no
brace and no backslash. As the default word of the variable it is expanded as on its own, but with
a tilde at its front taken for a plain character. So the two expansions end alike if the word has no
such tilde; if it has one, they do so only where the home directory is named by a tilde, or where
both fail, with failures of one kind. -/
theorem Builtin.expand_default_iff (builtin : Builtin) (nonEmpty : Bool) {name w : Text}
    {mode : Mode} (hname : name.isName = true) (hunset : builtin.scope.value? name = none)
    (hword : w.IsBraceless) (hmode : mode ≠ .heredoc) :
    let own := ((Oracle.expand w mode).outcome builtin).1
    let default := ((Oracle.expand (Choice.default.source nonEmpty name w) mode).outcome builtin).1
    default = builtin.scope.expand mode (if w.HasTilde then '\\' :: w else w) ∧
      (EndAlike default own ↔ (w.HasTilde →
        Piece.tildeWord w = ['~'] ∧ builtin.scope.value? "HOME".toList = some ['~'] ∨
          FailAlike default own)) := by
  intro own default
  have hdefault : default = builtin.scope.expand mode (if w.HasTilde then '\\' :: w else w) :=
    builtin.scope.expand_default_of_unset hmode nonEmpty hname hunset hword
  refine ⟨hdefault, fun halike htilde => ?_, fun h => ?_⟩
  · rcases halike with hsame | hfail
    · rw [if_pos htilde] at hdefault
      rcases hown : own with e | fields
      · exact .inr ⟨e, e, hsame.trans hown, rfl, rfl⟩
      · have hescaped := (hdefault.symm.trans hsame).trans hown
        obtain ⟨hlone, directory, hhome⟩ := Scope.exists_home hmode htilde hown
        rw [Scope.eq_tilde_of_expand_eq hmode htilde hlone hhome hescaped hown] at hhome
        exact .inl ⟨hlone, hhome⟩
    · exact .inr hfail
  · by_cases htilde : w.HasTilde
    · rw [if_pos htilde] at hdefault
      refine (h htilde).imp_left fun ⟨hlone, hhome⟩ => ?_
      rw [hdefault, Scope.expand_escaped_home hmode htilde hlone]
      exact (Scope.expand_home hmode htilde hlone hhome).symm
    · rw [if_neg htilde] at hdefault
      exact .inl hdefault

/-- A file in the home directory, on its own and as a default word. -/
theorem Builtin.expand_default_iff_of_home :
    let vars : Variables := Variables.ofList [("HOME".toList, { value := "/h".toList })]
    let builtin : Builtin := { scope := { vars } }
    let w : Text := "~/y".toList
    let own := ((Oracle.expand w .split).outcome builtin).1
    let default := ((Oracle.expand (Choice.default.source false ['x'] w) .split).outcome builtin).1
    (Text.isName ['x'] = true ∧ builtin.scope.value? ['x'] = none ∧ w.IsBraceless ∧
      Mode.split ≠ .heredoc) ∧
      default = .ok [w] ∧ own = .ok ["/h/y".toList] ∧ ¬EndAlike default own := by
  intro vars builtin w own default
  have hname : Text.isName ['x'] = true := by decide
  have hunset : builtin.scope.value? ['x'] = none := by decide
  have hword : w.IsBraceless := by simp [Text.IsBraceless, w]
  have hmode : Mode.split ≠ .heredoc := by decide
  have hread : Piece.read .bare (w.dropWhile (· ≠ '/')) = [.text ['/'], .text ['y']] := by
    show Piece.read .bare ['/', 'y'] = _
    rw [Piece.read_text (Quoting.step_plain (by decide) .bare _),
      Piece.read_text (Quoting.step_plain (by decide) .bare _), Piece.read_nil]
    rfl
  have htilde : w.HasTilde := by decide
  have hlone : Piece.tildeWord w = ['~'] := by decide
  obtain ⟨hdefault, hiff⟩ := expand_default_iff builtin false hname hunset hword hmode
  have hown : own = .ok ["/h/y".toList] := by
    show builtin.scope.expand .split w = _
    have hhome : builtin.scope.value? "HOME".toList = some "/h".toList := by decide
    rw [Scope.expand_home hmode htilde hlone hhome, hread]
    rfl
  rw [if_pos htilde, Scope.expand_escaped_home hmode htilde hlone, hread] at hdefault
  refine ⟨⟨hname, hunset, hword, hmode⟩, hdefault, hown, fun halike => ?_⟩
  rcases hiff.1 halike htilde with ⟨-, hhome⟩ | ⟨_, e, -, hfails, -⟩
  · cases hhome
  · cases hown.symm.trans hfails

end ShellFold
