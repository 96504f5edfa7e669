import ShellFold.Proofs.Expansion.Boundary

/-!
# Expansions with an operator

The source of an expansion that yields one of two words (`Choice.source`) and its reading: where
the word holds neither a brace nor a backslash, the expansion ends behind the word, and is one piece
(`Piece.ofText_choice`).
-/

set_option autoImplicit false

namespace ShellFold

/-- The operator of an expansion. -/
def Choice.sign : Choice → Char
  | .default => '-'
  | .alternative => '+'

/-- What stands between the name and the word of an expansion. -/
def Choice.operator (choice : Choice) (nonEmpty : Bool) : Text :=
  (if nonEmpty then [':'] else []) ++ [choice.sign]

/-- The source of an expansion with an operator. -/
def Choice.source (choice : Choice) (nonEmpty : Bool) (name word : Text) : Text :=
  '$' :: '{' :: (name ++ choice.operator nonEmpty ++ word) ++ ['}']

/-- The text can stand between braces without ending an expansion or beginning one. -/
def Text.IsBraceless (s : Text) : Prop := ∀ c ∈ s, c ∉ ['{', '}', '\\']

theorem Text.IsBraceless.append {s t : Text} (hs : s.IsBraceless) (ht : t.IsBraceless) :
    IsBraceless (s ++ t) :=
  List.forall_mem_append.2 ⟨hs, ht⟩

theorem Text.isBraceless_of_isName {name : Text} (h : name.isName = true) : name.IsBraceless :=
  fun _ hc => notMem_of_kind (isNameChar_of_mem h hc) (by decide)

theorem Choice.isBraceless_operator (choice : Choice) (nonEmpty : Bool) :
    Text.IsBraceless (choice.operator nonEmpty) := by
  cases choice <;> cases nonEmpty <;> simp [Text.IsBraceless, operator, sign]

/-- No expansion ends in the text, which has neither a closing brace nor a backslash. -/
def Text.IsUnclosing (s : Text) : Prop := ∀ c ∈ s, c ∉ ['}', '\\']

theorem Text.IsUnclosing.append {s t : Text} (hs : s.IsUnclosing) (ht : t.IsUnclosing) :
    IsUnclosing (s ++ t) :=
  List.forall_mem_append.2 ⟨hs, ht⟩

theorem Text.IsBraceless.isUnclosing {s : Text} (h : s.IsBraceless) : s.IsUnclosing :=
  fun c hc hmem => h c hc (.tail _ hmem)

theorem Text.IsBraceless.notMem {s : Text} (h : s.IsBraceless) : '{' ∉ s :=
  fun hmem => h '{' hmem (.head _)

/-- Where no expansion ends, every brace that opens counts as one more that is open. -/
theorem closingBraceFrom?_append_of_isUnclosing {s : Text} (h : s.IsUnclosing) (depth : Nat)
    (rest : Text) : closingBraceFrom? depth (s ++ rest) =
      (closingBraceFrom? (depth + s.count '{') rest).map fun p => (s ++ p.1, p.2) := by
  induction s generalizing depth with
  | nil => exact Option.map_id'.symm
  | cons c s ih =>
    obtain ⟨hc, hs⟩ := List.forall_mem_cons.1 h
    simp only [List.mem_cons, List.not_mem_nil, or_false, not_or] at hc
    have hdepth : (if c = '{' then depth + 1 else depth) + s.count '{' =
        depth + (c :: s).count '{' := by
      by_cases hopens : c = '{'
      · rw [if_pos hopens, hopens, List.count_cons_self]
        omega
      · rw [if_neg hopens, List.count_cons_of_ne hopens]
    rw [List.cons_append, closingBraceFrom?_cons hc.2, if_neg hc.1, ih hs, hdepth, Option.map_map]
    rfl

theorem closingBraceFrom?_zero (s : Text) : closingBraceFrom? 0 ('}' :: s) = some ([], s) := by
  rw [closingBraceFrom?_cons (by decide), if_pos rfl]

theorem closingBraceFrom?_succ (depth : Nat) (s : Text) : closingBraceFrom? (depth + 1) ('}' :: s) =
    (closingBraceFrom? depth s).map fun p => ('}' :: p.1, p.2) := by
  rw [closingBraceFrom?_cons (by decide), if_pos rfl]

/-- An expansion without braces in it ends at the first brace that closes. -/
theorem closingBrace?_of_isBraceless {body : Text} (h : body.IsBraceless) (after : Text) :
    closingBrace? (body ++ '}' :: after) = some (body, after) := by
  rw [closingBrace?, closingBraceFrom?_append_of_isUnclosing h.isUnclosing,
    List.count_eq_zero.2 h.notMem, closingBraceFrom?_zero, Option.map_some, List.append_nil]

theorem parameterName_of_isName {name rest : Text} (hname : name.isName = true)
    (hrest : rest.Avoids Text.isNameChar) : parameterName (name ++ rest) = (name, rest) := by
  have hrun := Text.takeWhile_of_avoids (fun _ hc => Text.isNameChar_of_mem hname hc) hrest
  cases name with
  | nil => cases hname
  | cons c name =>
    rw [List.cons_append] at hrun ⊢
    rw [parameterName, if_pos (Bool.and_eq_true_iff.1 hname).1, hrun.1, hrun.2]

/-- A body that is a parameter name to its end is a reference to the parameter. -/
theorem Reference.ofBody_of_parameterName {body : Text} (hhead : body.head? ≠ some '#')
    (hname : parameterName body = (body, [])) (hne : body ≠ []) :
    ofBody body = .ok (.value body) := by
  obtain ⟨c, body, rfl⟩ := List.exists_cons_of_ne_nil hne
  unfold ofBody
  split
  · next heq =>
    cases heq
    exact absurd rfl hhead
  · rw [hname]

theorem Reference.ofBody_of_isName {name : Text} (hname : name.isName = true) :
    ofBody name = .ok (.value name) := by
  have hrun := parameterName_of_isName hname (Text.avoids_nil _)
  rw [List.append_nil] at hrun
  refine ofBody_of_parameterName (fun hhead => ?_) hrun fun hnil => ?_
  · have hmem : '#' ∈ name := List.mem_of_mem_head? hhead
    exact Text.notMem_of_isName hname (by decide) hmem
  · rw [hnil] at hname
    cases hname

theorem Reference.ofBody_choice (choice : Choice) (nonEmpty : Bool) {name : Text}
    (hname : name.isName = true) (word : Text) :
    ofBody (name ++ choice.operator nonEmpty ++ word) =
      .ok (.choice choice nonEmpty name word) := by
  have hparameter : parameterName (name ++ choice.operator nonEmpty ++ word) =
      (name, choice.operator nonEmpty ++ word) := by
    rw [List.append_assoc]
    refine parameterName_of_isName hname fun c hc => ?_
    cases choice <;> cases nonEmpty <;> cases hc <;> decide
  cases name with
  | nil => cases hname
  | cons c name =>
    have hc : c ≠ '#' := by
      rintro rfl
      cases hname
    unfold ofBody
    split
    · next heq => exact absurd (List.cons.inj heq).1 hc
    · rw [hparameter]
      cases choice <;> cases nonEmpty <;> cases word <;> rfl

/-- An expansion in braces is read as one piece, up to its closing brace. -/
theorem Piece.read_brace {s body after : Text} {ref : Reference}
    (hclose : closingBrace? s = some (body, after)) (hbody : Reference.ofBody body = .ok ref) :
    read .bare ('$' :: '{' :: s) =
      ofReference false (read .bare ref.word) ref :: read .bare after := by
  have htakes : Quoting.bare.Takes ('$' :: '{' :: (body ++ ['}'])) after (.reference ref) .bare :=
    .dollar (.braces (closingBraceFrom?_append hclose) hbody)
  have hread := read_takes htakes (by simp)
  rw [show s = body ++ ['}'] ++ after by simpa using eq_of_closingBraceFrom? hclose]
  exact hread

/-- An expansion with an operator is read as one piece. -/
theorem Piece.ofText_choice (choice : Choice) (nonEmpty : Bool) {name word : Text}
    (hname : name.isName = true) (hword : word.IsBraceless) {mode : Mode}
    (hmode : mode ≠ .heredoc) :
    ofText mode (choice.source nonEmpty name word) =
      [.choice false choice nonEmpty name (read .bare word)] := by
  have hbody := ((Text.isBraceless_of_isName hname).append
    (choice.isBraceless_operator nonEmpty)).append hword
  have hread := read_brace (closingBrace?_of_isBraceless hbody [])
    (Reference.ofBody_choice choice nonEmpty hname word)
  rw [read_nil] at hread
  rw [ofText, if_neg hmode, if_neg fun h => by cases h.1]
  exact hread

theorem Piece.evalAll_singleton (scope : Scope) (split : Bool) (piece : Piece) (fields : Fields) :
    evalAll scope split [piece] fields = piece.eval scope split fields :=
  bind_pure _

namespace Scope

theorem lookupScalar_of_isName (scope : Scope) {name : Text} (hname : name.isName = true) :
    scope.lookupScalar name = .ok (scope.value? name) := by
  rw [lookupScalar, lookup, if_pos hname]
  rfl

variable (scope : Scope) (nonEmpty : Bool) {name word : Text} (hname : name.isName = true)
  (hword : word.IsBraceless) {mode : Mode} (hmode : mode ≠ .heredoc)
include hname hword hmode

theorem expand_default :
    scope.expand mode (Choice.default.source nonEmpty name word) =
      ((if counts nonEmpty (scope.value? name) then
          scope.emit mode.splits false (scope.value? name) {}
        else Piece.evalAll scope mode.splits (Piece.read .bare word) {}) >>=
      fun fields => .ok (fields.finish mode.splits)) := by
  rw [expand, Piece.ofText_choice _ _ hname hword hmode, Piece.evalAll_singleton, Piece.eval,
    scope.lookupScalar_of_isName hname]
  rfl

theorem expand_alternative :
    scope.expand mode (Choice.alternative.source nonEmpty name word) =
      ((if counts nonEmpty (scope.value? name) then
          Piece.evalAll scope mode.splits (Piece.read .bare word) {}
        else .ok {}) >>=
      fun fields => .ok (fields.finish mode.splits)) := by
  rw [expand, Piece.ofText_choice _ _ hname hword hmode, Piece.evalAll_singleton, Piece.eval,
    scope.lookupScalar_of_isName hname]
  rfl

end Scope

end ShellFold
