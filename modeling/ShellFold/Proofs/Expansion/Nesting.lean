import ShellFold.Builtin
import ShellFold.Proofs.Expansion.Braces
import ShellFold.Proofs.Expansion.Tilde

/-!
# Braces in the word of an expansion

The end of an expansion is found by counting braces, and every brace that opens counts, also one
without a dollar sign in front. So each brace that opens in the word of an expansion takes along a
closing brace of what follows (`closingBrace?_of_behind?`): the expansion of a variable that is set
ends at its own closing brace just if no brace opens in its default word
(`Builtin.expand_default_then_iff`).
-/

set_option autoImplicit false

namespace ShellFold

/-- What follows the closing braces of as many braces as are open. -/
def Text.behind? (opened : Nat) (s : Text) : Option Text :=
  match opened with
  | 0 => some s
  | depth + 1 => (closingBraceFrom? depth s).map Prod.snd

namespace Text

/-- What is left of a text is the end of it. -/
theorem isSuffix_of_behind? {opened : Nat} {s after : Text} (h : s.behind? opened = some after) :
    after <:+ s := by
  cases opened with
  | zero =>
    cases h
    exact List.suffix_refl s
  | succ depth =>
    obtain ⟨⟨body, after⟩, hcut, rfl⟩ := Option.map_eq_some_iff.1 h
    rw [eq_of_closingBraceFrom? hcut]
    exact (List.suffix_cons '}' after).trans (List.suffix_append body _)

/-- Nothing is taken along only where nothing is open. -/
theorem behind?_eq_self_iff {opened : Nat} {s : Text} : s.behind? opened = some s ↔ opened = 0 := by
  constructor
  · intro h
    cases opened with
    | zero => rfl
    | succ depth =>
      obtain ⟨⟨body, after⟩, hcut, hafter⟩ := Option.map_eq_some_iff.1 h
      have hlength := congrArg List.length (eq_of_closingBraceFrom? hcut)
      simp only [List.length_append, List.length_cons] at hlength
      simp only at hafter
      subst hafter
      omega
  · rintro rfl
    rfl

end Text

section

variable {body : Text} (h : body.IsUnclosing) (rest : Text)
include h

theorem closingBrace?_body :
    closingBrace? (body ++ '}' :: rest) =
      (closingBraceFrom? (body.count '{') ('}' :: rest)).map fun p => (body ++ p.1, p.2) := by
  rw [closingBrace?, closingBraceFrom?_append_of_isUnclosing h, Nat.zero_add]

/-- Each brace that opens in the body of an expansion takes along a closing brace of the rest. -/
theorem closingBrace?_of_behind? {after : Text}
    (hafter : rest.behind? (body.count '{') = some after) :
    ∃ more, closingBrace? (body ++ '}' :: rest) = some (body ++ more, after) := by
  rw [closingBrace?_body h]
  cases hcount : body.count '{' with
  | zero =>
    rw [hcount] at hafter
    cases hafter
    rw [closingBraceFrom?_zero]
    exact ⟨[], rfl⟩
  | succ depth =>
    rw [hcount] at hafter
    obtain ⟨⟨more, after⟩, hcut, rfl⟩ := Option.map_eq_some_iff.1 hafter
    rw [closingBraceFrom?_succ, hcut]
    exact ⟨'}' :: more, rfl⟩

/-- An expansion has no end where the rest has too few closing braces. -/
theorem closingBrace?_of_behind?_none (hnone : rest.behind? (body.count '{') = none) :
    closingBrace? (body ++ '}' :: rest) = none := by
  rw [closingBrace?_body h]
  cases hcount : body.count '{' with
  | zero =>
    rw [hcount] at hnone
    cases hnone
  | succ depth =>
    rw [hcount, Text.behind?, Option.map_eq_none_iff] at hnone
    rw [closingBraceFrom?_succ, hnone]
    rfl

end

/-! ## Reading and evaluating -/

namespace Piece

theorem read_brace_none {s : Text} (hclose : closingBrace? s = none) :
    read .bare ('$' :: '{' :: s) = [.failure (.early .unterminatedBrace)] := by
  rw [read_cons]
  simp [Quoting.step, Quoting.stepDollar, afterDollar, hclose]

end Piece

namespace Scope

variable (scope : Scope) (nonEmpty : Bool) {name v w rest : Text}

/-- The value of a variable, in front of text without a meaning. -/
theorem finish_value_plain (hglob : v.any isGlob = false)
    (hrest : ∀ c ∈ rest, Quoting.isPlain c = true) :
    (scope.emit false false (some v) {} >>= Piece.evalAll scope false (Piece.read .bare rest) >>=
        fun fields => .ok (fields.finish false)) =
      scope.separators >>= fun _ => .ok [v ++ rest] := by
  rw [emit, if_neg Bool.false_ne_true, if_neg (by simp [hglob])]
  rcases scope.separators with e | separators
  · rfl
  · exact scope.finish_plain (Fields.literal {} v) hrest

theorem expand_default_then (hname : name.isName = true) (hset : scope.value? name = some v)
    (hv : v ≠ []) (hglob : v.any isGlob = false) (hword : w.IsUnclosing)
    (hrest : ∀ c ∈ rest, Quoting.isPlain c = true) :
    scope.expand .noSplit (Choice.default.source nonEmpty name w ++ rest) =
      (rest.behind? (w.count '{')).elim (.error (.early .unterminatedBrace)) fun after =>
        scope.separators >>= fun _ => .ok [v ++ after] := by
  let front := name ++ Choice.default.operator nonEmpty
  have hfront : Text.IsBraceless front :=
    (Text.isBraceless_of_isName hname).append (Choice.default.isBraceless_operator nonEmpty)
  have hbody : Text.IsUnclosing (front ++ w) := hfront.isUnclosing.append hword
  have hcount : (front ++ w).count '{' = w.count '{' := by
    rw [List.count_append, List.count_eq_zero.2 hfront.notMem, Nat.zero_add]
  have hsource : Choice.default.source nonEmpty name w ++ rest =
      '$' :: '{' :: (front ++ w ++ '}' :: rest) := by
    simp [Choice.source, front]
  have hcounts : counts nonEmpty (some v) = true := by
    cases v with
    | nil => exact absurd rfl hv
    | cons c v => cases nonEmpty <;> rfl
  rw [hsource, expand, Piece.ofText_of_head (by simp)]
  cases hafter : rest.behind? (w.count '{') with
  | none =>
    rw [Piece.read_brace_none (closingBrace?_of_behind?_none hbody rest (hcount ▸ hafter))]
    rfl
  | some after =>
    obtain ⟨more, hclose⟩ := closingBrace?_of_behind? hbody rest (hcount ▸ hafter)
    have hplain : ∀ c ∈ after, Quoting.isPlain c = true := fun c hc =>
      hrest c ((Text.isSuffix_of_behind? hafter).subset hc)
    rw [List.append_assoc front w more] at hclose
    rw [Piece.read_brace hclose (Reference.ofBody_choice .default nonEmpty hname (w ++ more)),
      Reference.word, Piece.ofReference, Piece.evalAll, Piece.eval,
      scope.lookupScalar_of_isName hname, hset, ok_bind, if_pos hcounts]
    exact scope.finish_value_plain hglob hplain

end Scope

/-- **An expansion ends at its own closing brace just if no brace opens in its word.** Let a
variable be set to a value that is not empty and matches no files, let its default word have neither
a closing brace nor a backslash, and let text without a meaning follow. Each brace that opens in the
word takes along a closing brace of what follows, with all that stands in front of it; where there
is none left the expansion has no end. What follows comes behind the value as it stands just if no
brace opens in the word, in a state that can split values at all. -/
theorem Builtin.expand_default_then_iff (builtin : Builtin) (nonEmpty : Bool)
    {name v w rest : Text} (hname : name.isName = true) (hset : builtin.scope.value? name = some v)
    (hv : v ≠ []) (hglob : v.any isGlob = false) (hword : w.IsUnclosing)
    (hrest : ∀ c ∈ rest, Quoting.isPlain c = true) :
    let result := ((Oracle.expand (Choice.default.source nonEmpty name w ++ rest)
      .noSplit).outcome builtin).1
    (result = (rest.behind? (w.count '{')).elim (.error (.early .unterminatedBrace)) fun after =>
      builtin.scope.separators >>= fun _ => .ok [v ++ after]) ∧
    (result = .ok [v ++ rest] ↔ '{' ∉ w ∧ builtin.scope.separators.isOk = true) := by
  intro result
  have hresult : result = _ :=
    builtin.scope.expand_default_then nonEmpty hname hset hv hglob hword hrest
  refine ⟨hresult, ?_⟩
  rw [hresult, ← List.count_eq_zero, ← Text.behind?_eq_self_iff (s := rest)]
  constructor
  · intro hown
    cases hafter : rest.behind? (w.count '{') with
    | none =>
      rw [hafter] at hown
      cases hown
    | some after =>
      rw [hafter] at hown
      obtain ⟨separators, hseparators, hsame⟩ := bind_eq_ok.1 hown
      have hsame : v ++ after = v ++ rest := List.head_eq_of_cons_eq (Except.ok.inj hsame)
      exact ⟨congrArg some (List.append_cancel_left hsame), isOk_iff.2 ⟨separators, hseparators⟩⟩
  · rintro ⟨hbehind, hok⟩
    obtain ⟨separators, hseparators⟩ := isOk_iff.1 hok
    rw [hbehind, Option.elim_some, hseparators, ok_bind]

/-- A brace that opens in the word takes along the closing brace at the end of the text, and the
letter in front of it. -/
theorem Builtin.expand_default_then_iff_of_brace :
    let vars : Variables := Variables.ofList [(['x'], { value := ['v'] })]
    let builtin : Builtin := { scope := { vars } }
    let w : Text := ['{']
    let rest : Text := ['a', '}']
    let result := ((Oracle.expand (Choice.default.source false ['x'] w ++ rest)
      .noSplit).outcome builtin).1
    (Text.isName ['x'] = true ∧ builtin.scope.value? ['x'] = some ['v'] ∧ ['v'] ≠ ([] : Text) ∧
      List.any ['v'] isGlob = false ∧ w.IsUnclosing ∧
      ∀ c ∈ rest, Quoting.isPlain c = true) ∧
    result = .ok [['v']] ∧ result ≠ .ok [['v'] ++ rest] := by
  intro vars builtin w rest result
  have hname : Text.isName ['x'] = true := by decide
  have hset : builtin.scope.value? ['x'] = some ['v'] := by decide
  have hv : ['v'] ≠ ([] : Text) := by decide
  have hglob : List.any ['v'] isGlob = false := by decide
  have hword : w.IsUnclosing := by simp [Text.IsUnclosing, w]
  have hrest : ∀ c ∈ rest, Quoting.isPlain c = true := by simp [rest, Quoting.isPlain]
  obtain ⟨hresult, hiff⟩ :=
    expand_default_then_iff builtin false hname hset hv hglob hword hrest
  refine ⟨⟨hname, hset, hv, hglob, hword, hrest⟩, hresult, fun hown => ?_⟩
  exact (hiff.1 hown).1 (.head _)

end ShellFold
