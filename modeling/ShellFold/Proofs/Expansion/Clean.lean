import ShellFold.Expansion.Evaluate
import ShellFold.Proofs.Attempt
import ShellFold.Proofs.Expansion.Steps
import ShellFold.Proofs.Expansion.Reading

/-!
# NUL-free expansions

No expansion makes up a NUL: where neither the source of a word nor the scope holds one, what the
word expands to is free of them (`Scope.IsClean.expand`), and so can be written as a literal. The
proof follows the characters from the source into the pieces and from there into the fields.
-/

set_option autoImplicit false

namespace ShellFold

/-- No part of a scope holds a NUL. -/
structure Scope.IsClean (scope : Scope) : Prop where
  value : ∀ name value, scope.value? name = some value → '\x00' ∉ value
  positional : ∀ value ∈ scope.positional, '\x00' ∉ value
  options : '\x00' ∉ scope.options

/-! ## Pieces -/

mutual

/-- The literal parts of a piece hold no NUL. -/
def Piece.IsClean : Piece → Prop
  | .text s => '\x00' ∉ s
  | .choice _ _ _ _ word => Piece.AllClean word
  | .home | .value .. | .length .. | .rejected .. | .failure _ => True

/-- The literal parts of pieces hold no NUL. -/
def Piece.AllClean : List Piece → Prop
  | [] => True
  | piece :: pieces => piece.IsClean ∧ Piece.AllClean pieces

end

/-- The characters that a lexeme takes over hold no NUL. -/
def Lexeme.IsClean : Lexeme → Prop
  | .text s => '\x00' ∉ s
  | .reference ref => '\x00' ∉ ref.word
  | .nothing | .failure _ => True

theorem Dollar.Takes.isClean {quoted : Bool} {taken rest : Text} {dollar : Dollar}
    (h : Dollar.Takes quoted taken rest dollar) (hclean : '\x00' ∉ taken) :
    dollar.lexeme.IsClean := by
  cases h with
  | sign => simp [lexeme, Lexeme.IsClean]
  | braces _ hr =>
    intro hmem
    refine hclean (.tail _ (List.mem_append_left _ ?_))
    exact (Reference.isInfix_of_ofBody hr).2.subset hmem
  | name | special => simp [lexeme, Lexeme.IsClean, Reference.word]

theorem Quoting.Takes.isClean {q q' : Quoting} {taken rest : Text} {lexeme : Lexeme}
    (h : q.Takes taken rest lexeme q') (hclean : '\x00' ∉ taken) : lexeme.IsClean := by
  cases h with
  | joined => trivial
  | escaped =>
    show '\x00' ∉ _
    split
    · exact fun hmem => hclean (.tail _ hmem)
    · exact hclean
  | backslash => simp [Lexeme.IsClean]
  | dollar h => exact h.isClean fun hmem => hclean (.tail _ hmem)
  | quote =>
    rcases q with _ | (_ | _) | _ | _ <;> simp [stepQuote, closing, Lexeme.IsClean]
  | single => exact fun hmem => hclean (.tail _ (List.mem_append_left _ hmem))
  | plain => exact hclean

namespace Piece

theorem isClean_ofReference {quoted : Bool} {word : List Piece} (h : AllClean word)
    (ref : Reference) : (ofReference quoted word ref).IsClean := by
  cases ref with
  | choice => exact h
  | value | length | rejected => trivial

/-- A text without NUL is read as pieces without NUL. -/
theorem allClean_read (q : Quoting) (s : Text) (h : '\x00' ∉ s) : AllClean (read q s) := by
  match s with
  | [] =>
    rw [read_nil]
    rcases q with _ | _ | (_ | _) | _ <;> simp [Quoting.atEnd, Quoting.closing, AllClean, IsClean]
  | c :: s =>
    rw [read_cons]
    by_cases hfails : ∃ e, (q.step c s).lexeme = .failure e
    · obtain ⟨e, he⟩ := hfails
      rw [he]
      exact ⟨trivial, trivial⟩
    · obtain ⟨taken, hs, htakes⟩ := q.takes_of_step c s fun e he => hfails ⟨e, he⟩
      rw [hs, ← List.cons_append, List.mem_append, not_or] at h
      have hlexeme := htakes.isClean h.1
      have hlen := q.length_step c s
      have hrest := allClean_read (q.step c s).quoting (q.step c s).rest h.2
      split
      · exact hrest
      · next hl =>
        rw [hl] at hlexeme
        exact ⟨hlexeme, hrest⟩
      · next hl => exact absurd ⟨_, hl⟩ hfails
      · next ref hl =>
        rw [hl] at hlexeme
        have hword := Quoting.length_word_step hl
        exact ⟨isClean_ofReference (allClean_read _ ref.word hlexeme) ref, hrest⟩
termination_by s.length
decreasing_by
  all_goals
    simp only [List.length_cons]
    omega

theorem allClean_ofText (mode : Mode) {s : Text} (h : '\x00' ∉ s) : AllClean (ofText mode s) := by
  unfold ofText
  split
  · exact allClean_read _ s h
  · split
    · refine ⟨?_, allClean_read _ _ fun hmem => h ((List.dropWhile_suffix _).subset hmem)⟩
      unfold ofTilde
      split
      · trivial
      · split <;> trivial
    · exact allClean_read _ s h

end Piece

/-! ## Fields -/

/-- No field holds a NUL. -/
structure Fields.IsClean (fields : Fields) : Prop where
  done : ∀ field ∈ fields.done, '\x00' ∉ field
  current : '\x00' ∉ fields.current

namespace Fields.IsClean

variable {fields : Fields}

theorem empty : ({} : Fields).IsClean := ⟨by simp, by simp⟩

theorem literal (h : fields.IsClean) {s : Text} (hs : '\x00' ∉ s) : (fields.literal s).IsClean :=
  ⟨h.done, by simp [Fields.literal, h.current, hs]⟩

theorem done_concat (h : fields.IsClean) :
    ∀ field ∈ fields.done ++ [fields.current], '\x00' ∉ field := by
  intro field hmem
  rcases List.mem_append.1 hmem with hmem | hmem
  · exact h.done field hmem
  · rw [List.mem_singleton.1 hmem]
    exact h.current

theorem endField (h : fields.IsClean) : fields.endField.IsClean := by
  unfold Fields.endField
  split
  · exact ⟨h.done_concat, by simp⟩
  · exact h

theorem unquoted (h : fields.IsClean) (split : Bool) (separators : Text) {value : Text}
    (hvalue : '\x00' ∉ value) : (fields.unquoted split separators value).IsClean := by
  unfold Fields.unquoted
  split
  · induction value generalizing fields with
    | nil => exact h
    | cons c value ih =>
      rw [List.mem_cons, not_or] at hvalue
      refine ih ?_ hvalue.2
      unfold addSplit
      split
      · exact h.endField
      · exact h.literal (by simpa using hvalue.1)
  · exact h.literal hvalue

theorem separate (h : fields.IsClean) (split quoted : Bool) :
    (fields.separate split quoted).IsClean := by
  unfold Fields.separate
  split
  · exact ⟨h.done, by simp [h.current]⟩
  · split
    · exact ⟨h.done_concat, by simp⟩
    · exact h.endField

theorem finish (h : fields.IsClean) (split : Bool) :
    ∀ field ∈ fields.finish split, '\x00' ∉ field := by
  unfold Fields.finish
  split
  · exact h.endField.done
  · intro field hmem
    rw [List.mem_singleton.1 hmem]
    exact h.current

end Fields.IsClean

/-! ## Evaluation -/

/-- What a parameter stands for holds no NUL. -/
def Parameter.IsClean : Parameter → Prop
  | .scalar value => ∀ u, value = some u → '\x00' ∉ u
  | .list values => ∀ u ∈ values, '\x00' ∉ u

theorem toDigits_clean (n : Nat) : '\x00' ∉ Nat.toDigits 10 n := by
  intro hmem
  exact absurd (Nat.isDigit_of_mem_toDigits (by decide) (by decide) hmem) (by decide)

theorem mem_intercalate {α : Type} {a : α} {sep : List α} {l : List (List α)}
    (h : a ∈ sep.intercalate l) : a ∈ sep ∨ ∃ part ∈ l, a ∈ part := by
  induction l with
  | nil => cases h
  | cons part l ih =>
    cases l with
    | nil => exact .inr ⟨part, .head _, by simpa [List.intercalate] using h⟩
    | cons next l =>
      have h : a ∈ part ++ (sep ++ sep.intercalate (next :: l)) := h
      rcases List.mem_append.1 h with h | h
      · exact .inr ⟨part, .head _, h⟩
      · rcases List.mem_append.1 h with h | h
        · exact .inl h
        · rcases ih h with h | ⟨part, hpart, h⟩
          · exact .inl h
          · exact .inr ⟨part, .tail _ hpart, h⟩

/-- Separators are blanks. -/
theorem Scope.separators_clean {scope : Scope} {separators : Text}
    (h : scope.separators = .ok separators) : '\x00' ∉ separators := by
  simp only [Scope.separators] at h
  split at h
  · next hblank =>
    cases h
    intro hmem
    exact absurd (List.all_eq_true.1 hblank _ hmem) (by decide)
  · cases h

namespace Scope.IsClean

variable {scope : Scope} {split quoted : Bool} {fields fields' : Fields}
variable (hscope : scope.IsClean)
include hscope

theorem joined {value : Text} (h : scope.joined = .ok value) : '\x00' ∉ value := by
  obtain ⟨separators, hs, h⟩ := bind_eq_ok.1 h
  cases h
  intro hmem
  rcases mem_intercalate hmem with hmem | ⟨value, hvalue, hmem⟩
  · exact separators_clean hs (List.mem_of_mem_take hmem)
  · exact hscope.positional value hvalue hmem

theorem lookup {name : Text} {parameter : Parameter} (h : scope.lookup name = .ok parameter) :
    parameter.IsClean := by
  unfold Scope.lookup at h
  split at h
  · cases h
    exact hscope.value name
  · split at h
    · cases h
      exact hscope.positional
    · split at h
      · cases h
      · split at h
        · cases h
        · split at h
          · split at h
            · cases h
              intro u hu
              cases hindex : indexOf name with
              | zero =>
                rw [hindex] at hu
                cases hu
              | succ index =>
                rw [hindex] at hu
                exact hscope.positional u (List.mem_of_getElem? hu)
            · cases h
          · split at h
            · cases h
              rintro u ⟨⟩
              exact hscope.options
            · cases h

omit hscope in
theorem emit {value : Option Text} (hvalue : ∀ u, value = some u → '\x00' ∉ u)
    (hfields : fields.IsClean) (h : scope.emit split quoted value fields = .ok fields') :
    fields'.IsClean := by
  cases value with
  | none =>
    cases h
    exact hfields
  | some value =>
    have hvalue := hvalue value rfl
    simp only [Scope.emit] at h
    split at h
    · cases h
      exact hfields.literal hvalue
    · split at h
      · cases h
      · obtain ⟨separators, -, h⟩ := bind_eq_ok.1 h
        cases h
        exact hfields.unquoted split separators hvalue

omit hscope in
theorem emitRest {values : List Text} (hvalues : ∀ u ∈ values, '\x00' ∉ u)
    (hfields : fields.IsClean) (h : scope.emitRest split quoted values fields = .ok fields') :
    fields'.IsClean := by
  induction values generalizing fields with
  | nil =>
    cases h
    exact hfields
  | cons value values ih =>
    obtain ⟨mid, hmid, h⟩ := bind_eq_ok.1 h
    rw [List.forall_mem_cons] at hvalues
    refine ih hvalues.2 (emit ?_ (hfields.separate split quoted) hmid) h
    rintro u ⟨⟩
    exact hvalues.1

omit hscope in
theorem emitList {values : List Text} (hvalues : ∀ u ∈ values, '\x00' ∉ u)
    (hfields : fields.IsClean) (h : scope.emitList split quoted values fields = .ok fields') :
    fields'.IsClean := by
  cases values with
  | nil =>
    cases h
    exact hfields
  | cons value values =>
    obtain ⟨mid, hmid, h⟩ := bind_eq_ok.1 h
    rw [List.forall_mem_cons] at hvalues
    refine emitRest hvalues.2 (emit ?_ hfields hmid) h
    rintro u ⟨⟩
    exact hvalues.1

theorem emitValue {name : Text} (hfields : fields.IsClean)
    (h : scope.emitValue split quoted name fields = .ok fields') : fields'.IsClean := by
  unfold Scope.emitValue at h
  split at h
  · refine emit ?_ hfields h
    rintro u ⟨⟩
    exact toDigits_clean _
  · split at h
    · obtain ⟨value, hvalue, h⟩ := bind_eq_ok.1 h
      refine emit ?_ hfields h
      rintro u ⟨⟩
      exact hscope.joined hvalue
    · obtain ⟨parameter, hlookup, h⟩ := bind_eq_ok.1 h
      have hparameter := hscope.lookup hlookup
      cases parameter with
      | scalar value => exact emit hparameter hfields h
      | list values => exact emitList hparameter hfields h

omit hscope in
theorem emitLength {name : Text} (hfields : fields.IsClean)
    (h : scope.emitLength split quoted name fields = .ok fields') : fields'.IsClean := by
  obtain ⟨parameter, -, h⟩ := bind_eq_ok.1 h
  cases parameter with
  | scalar value =>
    refine emit ?_ hfields h
    rintro u ⟨⟩
    exact toDigits_clean _
  | list values => cases h

theorem lookupScalar {name : Text} {value : Option Text}
    (h : scope.lookupScalar name = .ok value) : ∀ u, value = some u → '\x00' ∉ u := by
  obtain ⟨parameter, hlookup, h⟩ := bind_eq_ok.1 h
  cases parameter with
  | scalar value =>
    cases h
    exact hscope.lookup hlookup
  | list values => cases h

end Scope.IsClean

mutual

theorem Piece.IsClean.eval {scope : Scope} (hscope : scope.IsClean) {split : Bool} :
    ∀ (piece : Piece) {fields fields' : Fields}, piece.IsClean → fields.IsClean →
      piece.eval scope split fields = .ok fields' → fields'.IsClean
  | .text s, _, _, hs, hfields, h => by
    cases h
    exact hfields.literal hs
  | .home, _, _, _, hfields, h => by
    rw [Piece.eval] at h
    split at h
    · next hv =>
      cases h
      exact hfields.literal (hscope.value _ _ hv)
    · cases h
  | .value _ _, _, _, _, hfields, h => hscope.emitValue hfields h
  | .length _ _, _, _, _, hfields, h => Scope.IsClean.emitLength hfields h
  | .choice _ .default nonEmpty name word, _, _, hword, hfields, h => by
    obtain ⟨value, hvalue, h⟩ := bind_eq_ok.1 h
    split at h
    · exact Scope.IsClean.emit (hscope.lookupScalar hvalue) hfields h
    · exact Piece.AllClean.evalAll hscope word hword hfields h
  | .choice _ .alternative nonEmpty name word, _, _, hword, hfields, h => by
    obtain ⟨value, hvalue, h⟩ := bind_eq_ok.1 h
    split at h
    · exact Piece.AllClean.evalAll hscope word hword hfields h
    · cases h
      exact hfields
  | .rejected name e, _, _, _, _, h => by
    obtain ⟨value, -, h⟩ := bind_eq_ok.1 h
    cases h
  | .failure _, _, _, _, _, h => by cases h

theorem Piece.AllClean.evalAll {scope : Scope} (hscope : scope.IsClean) {split : Bool} :
    ∀ (pieces : List Piece) {fields fields' : Fields}, Piece.AllClean pieces → fields.IsClean →
      Piece.evalAll scope split pieces fields = .ok fields' → fields'.IsClean
  | [], _, _, _, hfields, h => by
    cases h
    exact hfields
  | piece :: pieces, _, _, hpieces, hfields, h => by
    obtain ⟨mid, hmid, h⟩ := bind_eq_ok.1 h
    exact Piece.AllClean.evalAll hscope pieces hpieces.2
      (Piece.IsClean.eval hscope piece hpieces.1 hfields hmid) h

end

/-- **No expansion makes up a NUL.** -/
theorem Scope.IsClean.expand {scope : Scope} (hscope : scope.IsClean) {mode : Mode} {s : Text}
    (hs : '\x00' ∉ s) {fields : List Text} (h : scope.expand mode s = .ok fields) :
    ∀ field ∈ fields, '\x00' ∉ field := by
  obtain ⟨last, hlast, h⟩ := bind_eq_ok.1 h
  cases h
  exact (Piece.AllClean.evalAll hscope _ (Piece.allClean_ofText mode hs) .empty hlast).finish _

end ShellFold
