import Mathlib.Data.List.ModifyLast
import ShellFold.Proofs.Expansion.Literal
import ShellFold.Proofs.Expansion.Boundary
import ShellFold.Proofs.Expansion.Tilde

/-!
# Double quotes

What the reader makes of a word in double quotes: all but a few characters stand for themselves, and
the end counts as content unless the list of parameters was referred to. So the list of parameters
in double quotes is one field for each parameter, whatever they are (`Builtin.expand_quotedList`).
-/

set_option autoImplicit false

namespace ShellFold

/-! ## Reading -/

/-- Double quotes take no character of the text for anything but itself. -/
def Text.IsQuotable (s : Text) : Prop := ∀ c ∈ s, c ∉ ['"', '\\', '$', '\x60']

namespace Piece

theorem read_quotable {s : Text} (h : s.IsQuotable) {q : Quoting} (hq : q ≠ .bare) (rest : Text) :
    read q (s ++ rest) = (s.map ([·])).map text ++ read q rest := by
  induction s with
  | nil => rfl
  | cons c s ih =>
    obtain ⟨hc, hs⟩ := List.forall_mem_cons.1 h
    simp only [List.mem_cons, List.not_mem_nil, or_false, not_or] at hc
    have hstep : q.step c (s ++ rest) = ⟨.text [c], q, s ++ rest⟩ := by
      simp [Quoting.step, hc, hq]
    rw [List.cons_append, read_text hstep, ih hs]
    rfl

theorem ofText_quoted {mode : Mode} (hmode : mode ≠ .heredoc) (s : Text) :
    ofText mode ('"' :: s) = read (.quoted false) s := by
  rw [ofText_of_not_hasTilde hmode fun h => by cases h.1]
  exact read_nothing rfl

/-- The double quote at the end of a word is content, unless the list of parameters was referred to
before it. -/
theorem read_closing (sawList : Bool) :
    read (.quoted sawList) ['"'] = if sawList then [] else [text []] := by
  rw [read_cons]
  cases sawList with
  | false => exact congrArg _ (read_nil .bare)
  | true => exact read_nil .bare

theorem read_quotedList {p s : Text} (hp : p.IsQuotable) (hs : s.IsQuotable) :
    read (.quoted false) (p ++ '$' :: '@' :: (s ++ ['"'])) =
      (p.map ([·])).map text ++ .value true ['@'] :: (s.map ([·])).map text := by
  have htakes : (Quoting.quoted false).Takes ['$', '@'] (s ++ ['"'])
      (.reference (.value ['@'])) (.quoted true) := .dollar (.special rfl)
  have hlist := read_takes htakes (by simp)
  rw [read_quotable hs (by simp), read_closing, if_pos rfl, List.append_nil] at hlist
  rw [read_quotable hp (by simp)]
  exact congrArg _ hlist

end Piece

/-! ## The fields of a list -/

/-- The fields of a list between two texts, of which one stands in front of the first and the other
behind the last. Where the list is empty the texts are a field by themselves, unless they are empty
as well. -/
def Text.enclose (p s : Text) : List Text → List Text
  | [] => if p ++ s = [] then [] else [p ++ s]
  | value :: values => ((p ++ value) :: values).modifyLast (· ++ s)

namespace Fields

/-- The characters of a text are one field, unless there are none. -/
theorem finish_characters (s : Text) :
    ((s.map ([·])).foldl literal {}).finish true = if s = [] then [] else [s] := by
  cases s with
  | nil => rfl
  | cons c s =>
    rw [foldl_literal_of_ne_nil (by simp), Text.flatten_characters, finish_literal,
      if_neg (List.cons_ne_nil c s)]

theorem foldl_literal_of_hasContent {fields : Fields} (h : fields.hasContent = true)
    (parts : List Text) : parts.foldl literal fields = fields.literal parts.flatten := by
  cases parts with
  | nil => simp [literal, ← h]
  | cons part parts => exact foldl_literal_of_ne_nil (List.cons_ne_nil part parts) fields

theorem finish_of_hasContent {fields : Fields} (h : fields.hasContent = true) :
    fields.finish true = fields.done ++ [fields.current] := by
  rw [finish, if_pos rfl, endField, if_pos h]

end Fields

namespace Scope

variable (scope : Scope)

/-- In double quotes each parameter behind the first is a field of its own. -/
theorem emitRest_quoted (values : List Text) {fields : Fields} (h : fields.hasContent = true) :
    ∃ fields', scope.emitRest true true values fields = .ok fields' ∧ fields'.hasContent = true ∧
      fields'.done ++ [fields'.current] = fields.done ++ [fields.current] ++ values := by
  induction values generalizing fields with
  | nil => exact ⟨fields, rfl, h, (List.append_nil _).symm⟩
  | cons value values ih =>
    have hvalue : ((fields.separate true true).literal value).hasContent = true := rfl
    obtain ⟨fields', hrest, hcontent, hfields⟩ := ih hvalue
    exact ⟨fields', hrest, hcontent, by simpa [Fields.separate, Fields.literal] using hfields⟩

/-- The list of parameters in double quotes, behind the characters of a text and in front of
others. -/
theorem finish_quotedList (p s : Text) :
    (scope.emitValue true true ['@'] ((p.map ([·])).foldl Fields.literal {}) >>= fun fields =>
        .ok (((s.map ([·])).foldl Fields.literal fields).finish true)) =
      .ok (Text.enclose p s scope.positional) := by
  have hlist : ∀ fields, scope.emitValue true true ['@'] fields =
      scope.emitList true true scope.positional fields := fun _ => rfl
  rw [hlist]
  cases scope.positional with
  | nil =>
    rw [emitList, ok_bind, ← List.foldl_append, ← List.map_append, Fields.finish_characters,
      Text.enclose]
  | cons value values =>
    have hfirst : ((p.map ([·])).foldl Fields.literal {}).literal value =
        Fields.literal {} (p ++ value) := by
      have hne : p.map ([·]) ++ [value] ≠ [] := by simp
      have hparts := Fields.foldl_literal_of_ne_nil hne {}
      rw [List.foldl_append, List.flatten_append, Text.flatten_characters,
        List.flatten_singleton] at hparts
      exact hparts
    have hvalue : (Fields.literal {} (p ++ value)).hasContent = true := rfl
    obtain ⟨fields, hrest, hcontent, hfields⟩ := scope.emitRest_quoted values hvalue
    have hemit : scope.emitList true true (value :: values)
        ((p.map ([·])).foldl Fields.literal {}) = .ok fields := by
      rw [← hrest, ← hfirst]
      rfl
    rw [hemit, ok_bind, Fields.foldl_literal_of_hasContent hcontent, Text.flatten_characters,
      Fields.finish_of_hasContent rfl, Text.enclose]
    show Except.ok (fields.done ++ [fields.current ++ s]) = _
    rw [← List.modifyLast_concat (· ++ s), hfields]
    rfl

end Scope

/-- **The list of parameters in double quotes keeps the parameters as they are.** In every state,
whatever the parameters hold and whatever separates fields, each of them is a field of its own, with
the text in front of the list before the first and the text behind it after the last. Without
parameters there is one field of the two texts, or none if both are empty. -/
theorem Builtin.expand_quotedList (builtin : Builtin) {p s : Text} (hp : p.IsQuotable)
    (hs : s.IsQuotable) :
    ((Oracle.expand ('"' :: (p ++ '$' :: '@' :: (s ++ ['"']))) .split).outcome builtin).1 =
      .ok (Text.enclose p s builtin.scope.positional) := by
  show builtin.scope.expand .split _ = _
  rw [← builtin.scope.finish_quotedList p s, Scope.expand, Piece.ofText_quoted (by decide),
    Piece.read_quotedList hp hs, Piece.evalAll_value_between]
  show (Scope.emitValue _ true true _ _ >>= _) >>= _ = _
  rcases builtin.scope.emitValue true true ['@'] _ with e | fields <;> rfl

/-- Empty parameters at both ends of the list, blanks and pattern characters between them, where
separators are not blanks. -/
theorem Builtin.expand_quotedList_of_empty :
    let vars : Variables := Variables.ofList [("IFS".toList, { value := ":".toList })]
    let positional : List Text := [[], "a *\n".toList, []]
    let builtin : Builtin := { scope := { vars, positional } }
    let p : Text := "~'".toList
    let s : Text := "[".toList
    (p.IsQuotable ∧ s.IsQuotable) ∧
      ((Oracle.expand ('"' :: (p ++ '$' :: '@' :: (s ++ ['"']))) .split).outcome builtin).1 =
        .ok ["~'".toList, "a *\n".toList, "[".toList] := by
  intro vars positional builtin p s
  have hp : p.IsQuotable := by simp [Text.IsQuotable, p]
  have hs : s.IsQuotable := by simp [Text.IsQuotable, s]
  exact ⟨⟨hp, hs⟩, expand_quotedList builtin hp hs⟩

end ShellFold
