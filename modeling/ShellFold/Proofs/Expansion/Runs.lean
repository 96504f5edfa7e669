import Mathlib.Data.List.ReduceOption
import ShellFold.Builtin
import ShellFold.Proofs.Expansion.Braces
import ShellFold.Proofs.Expansion.Tilde

/-!
# Runs between separators

Where fields are split, an unquoted value is cut at the separators in it, and the text around it is
not cut. Fields to which single characters are added and which are ended at gaps are the runs between
the gaps (`Fields.IsFilled.finish_foldl_feed`); so the fields of a value between two texts are the
runs of what stands there (`Builtin.expand_between`).
-/

set_option autoImplicit false

namespace ShellFold

/-! ## Runs -/

namespace Text

/-- The non-empty runs of characters between the gaps of a sequence. -/
def runs (s : List (Option Char)) : List Text :=
  ((s.splitOnP Option.isNone).map List.reduceOption).filter (· ≠ [])

/-- A value with a gap in the place of each separator. -/
def gapped (value separators : Text) : List (Option Char) :=
  value.map fun c => if c ∈ separators then none else some c

theorem splitOnP_map_some (s : Text) : (s.map some).splitOnP Option.isNone = [s.map some] :=
  List.splitOnP_eq_singleton fun c hc => by
    obtain ⟨d, -, rfl⟩ := List.mem_map.1 hc
    rfl

theorem reduceOption_map_some (s : Text) : (s.map some).reduceOption = s := by
  rw [List.reduceOption, List.filterMap_map]
  exact List.filterMap_some

/-- Without gaps there is one run, if there is anything. -/
theorem runs_map_some (s : Text) : runs (s.map some) = if s = [] then [] else [s] := by
  rw [runs, splitOnP_map_some, List.map_singleton, reduceOption_map_some, List.filter_singleton]
  simp

theorem runs_append_none (s t : List (Option Char)) : runs (s ++ none :: t) = runs s ++ runs t := by
  rw [runs, List.splitOnP_append_cons s t rfl, List.map_append, List.filter_append]
  rfl

end Text

/-! ## Fields as runs -/

namespace Fields

/-- Adds a character to the current field, or ends the field at a gap. -/
def feed (fields : Fields) : Option Char → Fields
  | some c => fields.literal [c]
  | none => fields.endField

/-- The current field has content just if it has characters. -/
def IsFilled (fields : Fields) : Prop := fields.hasContent = !fields.current.isEmpty

variable {fields : Fields}

theorem IsFilled.feed (h : fields.IsFilled) (c : Option Char) : (fields.feed c).IsFilled := by
  cases c with
  | some c => simp [IsFilled, Fields.feed, literal]
  | none =>
    rw [Fields.feed, endField]
    split
    · rfl
    · exact h

/-- **Fields are runs.** At the end of a sequence they are those there were, and then its runs, the
first of them behind what was in the current field. -/
theorem IsFilled.finish_foldl_feed (h : fields.IsFilled) (s : List (Option Char)) :
    (s.foldl Fields.feed fields).finish true =
      fields.done ++ Text.runs (fields.current.map some ++ s) := by
  induction s generalizing fields with
  | nil =>
    rw [List.append_nil, Text.runs_map_some, List.foldl_nil, finish, if_pos rfl, endField, h]
    cases fields.current <;> simp
  | cons c s ih =>
    rw [List.foldl_cons, ih (h.feed c)]
    cases c with
    | some c => simp [Fields.feed, literal]
    | none =>
      rw [Text.runs_append_none, Text.runs_map_some, Fields.feed, endField, h]
      cases hcurrent : fields.current <;> simp [hcurrent]

theorem foldl_literal_eq_feed (s : Text) (fields : Fields) :
    (s.map ([·])).foldl literal fields = (s.map some).foldl feed fields := by
  rw [List.foldl_map, List.foldl_map]
  rfl

theorem unquoted_eq_feed (separators value : Text) (fields : Fields) :
    fields.unquoted true separators value = (value.gapped separators).foldl feed fields := by
  rw [unquoted, if_pos rfl, Text.gapped, List.foldl_map]
  congr 1
  funext fields c
  rw [addSplit]
  split <;> rfl

/-- A value between two texts, where fields are split. -/
theorem finish_between_split (p v s separators : Text) :
    ((s.map ([·])).foldl literal
        (((p.map ([·])).foldl literal {}).unquoted true separators v)).finish true =
      Text.runs (p.map some ++ v.gapped separators ++ s.map some) := by
  have hempty : ({} : Fields).IsFilled := rfl
  rw [unquoted_eq_feed, foldl_literal_eq_feed, foldl_literal_eq_feed, ← List.foldl_append,
    ← List.foldl_append, hempty.finish_foldl_feed, List.append_assoc]
  rfl

/-- A value between two texts, where fields are not split. -/
theorem finish_between_unsplit (p v s separators : Text) :
    ((s.map ([·])).foldl literal
        (((p.map ([·])).foldl literal {}).unquoted false separators v)).finish false =
      [p ++ v ++ s] := by
  show [(List.foldl literal (literal _ v) _).current] = _
  rw [current_foldl_literal, literal, current_foldl_literal, Text.flatten_characters,
    Text.flatten_characters]
  rfl

end Fields

/-! ## A value between two texts -/

theorem Piece.read_braced {name : Text} (hname : name.isName = true) (rest : Text) :
    read .bare ('$' :: '{' :: (name ++ '}' :: rest)) = .value false name :: read .bare rest :=
  read_brace (closingBrace?_of_isBraceless (Text.isBraceless_of_isName hname) rest)
    (Reference.ofBody_of_isName hname)

theorem Scope.expand_braced (scope : Scope) {name p s : Text} (hname : name.isName = true)
    (hp : ∀ c ∈ p, c.isAlphanum = true) (hs : ∀ c ∈ s, c.isAlphanum = true) {mode : Mode}
    (hmode : mode ≠ .heredoc) :
    scope.expand mode (p ++ '$' :: '{' :: (name ++ '}' :: s)) =
      scope.emit mode.splits false (scope.value? name) ((p.map ([·])).foldl Fields.literal {}) >>=
        fun fields => .ok (((s.map ([·])).foldl Fields.literal fields).finish mode.splits) := by
  have hhead : (p ++ '$' :: '{' :: (name ++ '}' :: s)).head? ≠ some '~' := by
    cases p with
    | nil => simp
    | cons c p =>
      intro hc
      cases hc
      exact absurd (hp '~' (.head _)) (by decide)
  have hplain : ∀ c : Char, c.isAlphanum = true → Quoting.isPlain c = true := fun c hc =>
    Quoting.isPlain_of_kind hc (by decide)
  rw [expand, Piece.ofText_of_not_hasTilde hmode fun h => hhead h.1,
    Piece.read_plain fun c hc => hplain c (hp c hc), Piece.read_braced hname,
    Piece.read_bare_plain fun c hc => hplain c (hs c hc), Piece.evalAll_value_between,
    scope.emitValue_of_isName _ _ hname]
  rcases scope.emit mode.splits false (scope.value? name) _ with e | fields <;> rfl

/-- **A value is split at its own separators.** Let fields be separated by blanks, if at all, and let
a variable be set to a value that matches no files. Between letters and digits it expands to the
non-empty runs that are left where the whole is cut at the separators in the value, in their order.
Where fields are not split the whole is one word. -/
theorem Builtin.expand_between (builtin : Builtin) {name v p s : Text}
    (hifs : (builtin.scope.value? "IFS".toList).getD defaultSeparators ⊆ defaultSeparators)
    (hname : name.isName = true) (hset : builtin.scope.value? name = some v)
    (hglob : v.any isGlob = false) (hp : ∀ c ∈ p, c.isAlphanum = true)
    (hs : ∀ c ∈ s, c.isAlphanum = true) :
    let source := p ++ '$' :: '{' :: (name ++ '}' :: s)
    let separators := (builtin.scope.value? "IFS".toList).getD defaultSeparators
    ((Oracle.expand source .split).outcome builtin).1 =
        .ok (Text.runs (p.map some ++ v.gapped separators ++ s.map some)) ∧
      ((Oracle.expand source .noSplit).outcome builtin).1 = .ok [p ++ v ++ s] := by
  intro source separators
  have hseparators : builtin.scope.separators = .ok separators := by
    rw [Scope.separators, if_pos (List.all_eq_true.2 fun c hc => decide_eq_true (hifs hc))]
  have hexpand : ∀ mode : Mode, mode ≠ .heredoc → builtin.scope.expand mode source =
      .ok (((s.map ([·])).foldl Fields.literal
        (((p.map ([·])).foldl Fields.literal {}).unquoted mode.splits separators v)).finish
          mode.splits) := fun mode hmode => by
    rw [builtin.scope.expand_braced hname hp hs hmode, hset, Scope.emit,
      if_neg Bool.false_ne_true, hglob, hseparators]
    rfl
  exact ⟨(hexpand .split (by decide)).trans (congrArg _ (Fields.finish_between_split ..)),
    (hexpand .noSplit (by decide)).trans (congrArg _ (Fields.finish_between_unsplit ..))⟩

/-- Separators at both ends of the value and two in a row, where newlines do not separate fields. -/
theorem Builtin.expand_between_of_blanks :
    let vars : Variables := Variables.ofList
      [("IFS".toList, { value := " \t".toList }), (['x'], { value := " a\nb \tc ".toList })]
    let builtin : Builtin := { scope := { vars } }
    let source : Text := "p${x}s".toList
    ((builtin.scope.value? "IFS".toList).getD defaultSeparators ⊆ defaultSeparators ∧
      Text.isName ['x'] = true ∧ builtin.scope.value? ['x'] = some " a\nb \tc ".toList ∧
      " a\nb \tc ".toList.any isGlob = false ∧ (∀ c ∈ ['p'], c.isAlphanum = true) ∧
      ∀ c ∈ ['s'], c.isAlphanum = true) ∧
    ((Oracle.expand source .split).outcome builtin).1 =
        .ok [['p'], "a\nb".toList, ['c'], ['s']] ∧
      ((Oracle.expand source .noSplit).outcome builtin).1 = .ok ["p a\nb \tc s".toList] := by
  intro vars builtin source
  have hifs : (builtin.scope.value? "IFS".toList).getD defaultSeparators ⊆ defaultSeparators := by
    decide
  have hname : Text.isName ['x'] = true := by decide
  have hset : builtin.scope.value? ['x'] = some " a\nb \tc ".toList := by decide
  have hglob : " a\nb \tc ".toList.any isGlob = false := by decide
  have hp : ∀ c ∈ ['p'], c.isAlphanum = true := List.forall_mem_singleton.2 (by decide)
  have hs : ∀ c ∈ ['s'], c.isAlphanum = true := List.forall_mem_singleton.2 (by decide)
  have hruns : Text.runs (['p'].map some ++
      Text.gapped " a\nb \tc ".toList ((builtin.scope.value? "IFS".toList).getD defaultSeparators) ++
        ['s'].map some) = [['p'], "a\nb".toList, ['c'], ['s']] := by
    decide
  obtain ⟨hsplit, hunsplit⟩ := expand_between builtin hifs hname hset hglob hp hs
  rw [hruns] at hsplit
  exact ⟨⟨hifs, hname, hset, hglob, hp, hs⟩, hsplit, hunsplit⟩

end ShellFold
