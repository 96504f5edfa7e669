import ShellFold.Expansion.Evaluate
import ShellFold.Proofs.Attempt
import ShellFold.Proofs.Expansion.Reading

/-!
# Tildes at the front of a word

A tilde at the front of a word is special unless something hides it up to the first slash
(`Text.HasTilde`). Only a lone tilde expands, to the home directory (`Scope.exists_home`); behind a
backslash it is a character like others (`Scope.expand_escaped_tilde`).
-/

set_option autoImplicit false

namespace ShellFold

/-- A tilde at the front, which nothing up to the first slash hides. -/
def Text.HasTilde (s : Text) : Prop :=
  s.head? = some '~' ∧ (Piece.tildeWord s).any Piece.hidesTilde = false

instance (s : Text) : Decidable s.HasTilde := inferInstanceAs (Decidable (_ ∧ _))

namespace Piece

section Mode

variable {mode : Mode} (hmode : mode ≠ .heredoc) {s : Text}
include hmode

theorem ofText_of_hasTilde (h : s.HasTilde) :
    ofText mode s = ofTilde (tildeWord s) :: read .bare (s.dropWhile (· ≠ '/')) := by
  rw [ofText, if_neg hmode, if_pos ⟨h.1, by simp [h.2]⟩]

theorem ofText_of_not_hasTilde (h : ¬s.HasTilde) : ofText mode s = read .bare s := by
  rw [ofText, if_neg hmode, if_neg fun hc => h ⟨hc.1, by simpa using hc.2⟩]

end Mode

theorem ofText_of_head {s : Text} (h : s.head? ≠ some '~') : ofText .noSplit s = read .bare s :=
  ofText_of_not_hasTilde (by decide) fun ht => h ht.1

theorem ofText_of_hidden {s : Text} (h : (tildeWord s).any hidesTilde = true) :
    ofText .noSplit s = read .bare s :=
  ofText_of_not_hasTilde (by decide) fun ht => Bool.false_ne_true (ht.2.symm.trans h)

theorem any_hidesTilde_append {p : Text} (h : (tildeWord p).any hidesTilde = true) (t : Text) :
    (tildeWord (p ++ t)).any hidesTilde = true := by
  obtain ⟨c, hc, hhides⟩ := List.any_eq_true.1 h
  refine List.any_eq_true.2 ⟨c, ?_, hhides⟩
  unfold tildeWord at hc ⊢
  rw [List.takeWhile_append]
  split
  · exact List.mem_append_left _ ((List.takeWhile_prefix _).subset hc)
  · exact hc

theorem ofText_tilde {s : Text} (h : (tildeWord ('~' :: s)).any hidesTilde = false) :
    ofText .noSplit ('~' :: s) =
      ofTilde (tildeWord ('~' :: s)) :: read .bare (s.dropWhile (· ≠ '/')) :=
  ofText_of_hasTilde (by decide) ⟨rfl, h⟩

theorem tildeWord_cons {s : Text} (h : ∀ c, s.head? = some c → c = '/') :
    tildeWord ('~' :: s) = ['~'] ∧ s.dropWhile (· ≠ '/') = s := by
  cases s with
  | nil => exact ⟨rfl, rfl⟩
  | cons c s =>
    rw [h c rfl]
    exact ⟨rfl, rfl⟩

theorem ofText_home {s : Text} (h : ∀ c, s.head? = some c → c = '/') :
    ofText .noSplit ('~' :: s) = home :: read .bare s := by
  obtain ⟨hword, hdrop⟩ := tildeWord_cons h
  rw [ofText_tilde (by rw [hword]; rfl), hword, hdrop]
  rfl

/-- Of the tilde words that nothing hides, only a lone tilde expands. -/
theorem eq_of_eval_ofTilde {scope : Scope} {split : Bool} {word : Text} {fields fields' : Fields}
    (h : (ofTilde word).eval scope split fields = .ok fields') : word = ['~'] := by
  unfold ofTilde at h
  split at h
  · assumption
  · split at h <;> cases h

/-- Where no place gives it a meaning, a tilde is a character like others. -/
theorem read_tilde (s : Text) : read .bare ('~' :: s) = text ['~'] :: read .bare s :=
  read_text (Quoting.step_plain (by decide) .bare s)

theorem eq_cons_of_tildeWord {s : Text} (h : tildeWord s = ['~']) :
    s = '~' :: s.dropWhile (· ≠ '/') := by
  have hsplit := List.takeWhile_append_dropWhile (p := (· ≠ '/')) (l := s)
  rw [show s.takeWhile (· ≠ '/') = ['~'] from h] at hsplit
  exact hsplit.symm

end Piece

namespace Scope

variable {scope : Scope} {mode : Mode} (hmode : mode ≠ .heredoc) {w : Text} (htilde : w.HasTilde)
include hmode htilde

/-- A backslash keeps the tilde behind it from being special. -/
theorem expand_escaped_tilde :
    scope.expand mode ('\\' :: w) =
      (Piece.evalAll scope mode.splits (Piece.read .bare w) {} >>=
        fun fields => .ok (fields.finish mode.splits)) := by
  obtain ⟨s, rfl⟩ : ∃ s, w = '~' :: s := by
    cases w with
    | nil => cases htilde.1
    | cons c s => exact ⟨s, by rw [Option.some.inj htilde.1]⟩
  have hescaped : Piece.read .bare ('\\' :: '~' :: s) = .text ['~'] :: Piece.read .bare s :=
    Piece.read_text rfl
  have hnone : ¬Text.HasTilde ('\\' :: '~' :: s) := fun h => by cases h.1
  rw [expand, Piece.ofText_of_not_hasTilde hmode hnone, hescaped, Piece.read_tilde]
  rfl

/-- A word with a tilde that expands begins with the home directory. -/
theorem exists_home {fields : List Text} (hown : scope.expand mode w = .ok fields) :
    Piece.tildeWord w = ['~'] ∧ ∃ directory, scope.value? "HOME".toList = some directory := by
  rw [expand, Piece.ofText_of_hasTilde hmode htilde] at hown
  obtain ⟨last, hlast, -⟩ := bind_eq_ok.1 hown
  obtain ⟨mid, hmid, -⟩ := bind_eq_ok.1 hlast
  have hlone := Piece.eq_of_eval_ofTilde hmid
  refine ⟨hlone, ?_⟩
  rw [hlone, Piece.ofTilde, if_pos rfl, Piece.eval] at hmid
  cases hhome : scope.value? "HOME".toList with
  | none =>
    rw [hhome] at hmid
    cases hmid
  | some directory => exact ⟨directory, rfl⟩

variable (hlone : Piece.tildeWord w = ['~'])
include hlone

theorem expand_home {directory : Text} (hhome : scope.value? "HOME".toList = some directory) :
    scope.expand mode w =
      (Piece.evalAll scope mode.splits (Piece.read .bare (w.dropWhile (· ≠ '/')))
        (Fields.literal {} directory) >>= fun fields => .ok (fields.finish mode.splits)) := by
  rw [expand, Piece.ofText_of_hasTilde hmode htilde, hlone, Piece.ofTilde, if_pos rfl,
    Piece.evalAll, Piece.eval, hhome]
  rfl

theorem expand_escaped_home :
    scope.expand mode ('\\' :: w) =
      (Piece.evalAll scope mode.splits (Piece.read .bare (w.dropWhile (· ≠ '/')))
        (Fields.literal {} ['~']) >>= fun fields => .ok (fields.finish mode.splits)) := by
  rw [expand_escaped_tilde hmode htilde]
  have hread := congrArg (Piece.read .bare) (Piece.eq_cons_of_tildeWord hlone)
  rw [hread, Piece.read_tilde]
  rfl

end Scope

end ShellFold
