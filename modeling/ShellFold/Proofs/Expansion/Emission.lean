import ShellFold.Expansion.Evaluate
import ShellFold.Proofs.Attempt

/-!
# What an expansion adds

Whether the pieces of a word have a value, and which text they add, does not depend on the fields
they are added to (`Piece.evalAll_emits`). Where fields are split, bounds between them take the
place of blanks, and nothing else of the text changes.
-/

set_option autoImplicit false

namespace ShellFold

/-- The text without the characters at which fields may be split. -/
def Text.unblanked (s : Text) : Text := s.filter (· ∉ defaultSeparators)

theorem Text.unblanked_append (s t : Text) : unblanked (s ++ t) = s.unblanked ++ t.unblanked :=
  List.filter_append ..

namespace Fields

/-- The text of the fields, without the bounds between them. -/
def text (fields : Fields) : Text := fields.done.flatten ++ fields.current

/-- Fields as an expansion makes them: nothing is in a field without content, and where fields are
not split there is but one. -/
structure Sound (split : Bool) (fields : Fields) : Prop where
  current : split = true → fields.hasContent = false → fields.current = []
  done : split = false → fields.done = []

variable {split : Bool} {fields : Fields}

theorem sound_empty (split : Bool) : Sound split {} := ⟨fun _ _ => rfl, fun _ => rfl⟩

theorem Sound.literal (h : fields.Sound split) (s : Text) :
    (fields.literal s).Sound split ∧ (fields.literal s).text = fields.text ++ s :=
  ⟨⟨nofun, h.done⟩, (List.append_assoc ..).symm⟩

theorem Sound.endField (h : fields.Sound true) :
    fields.endField.Sound true ∧ fields.endField.text = fields.text := by
  rw [Fields.endField]
  split
  · exact ⟨⟨fun _ _ => rfl, nofun⟩, by simp [text]⟩
  · exact ⟨h, rfl⟩

theorem Sound.flatten_finish (h : fields.Sound split) :
    (fields.finish split).flatten = fields.text := by
  cases split with
  | false => simp [finish, text, h.done rfl]
  | true =>
    have hend := h.endField
    rw [← hend.2, finish, if_pos rfl, text, hend.1.current rfl, List.append_nil]
    rw [Fields.endField]
    split
    · rfl
    · exact Bool.eq_false_iff.2 ‹_›

end Fields

/-- From all fields the step adds the same text. -/
def Adds (split : Bool) (f : Fields → Except Failure Fields) (t : Text) : Prop :=
  ∀ fields : Fields, fields.Sound split →
    ∃ fields', f fields = .ok fields' ∧ fields'.Sound split ∧ fields'.text = fields.text ++ t

/-- The fields that a step has added a text to are made of the text they had and this one. -/
theorem Adds.flatten_finish {split : Bool} {f : Fields → Except Failure Fields} {t : Text}
    (h : Adds split f t) {fields : Fields} (hsound : fields.Sound split) :
    ∃ fields', f fields = .ok fields' ∧ (fields'.finish split).flatten = fields.text ++ t := by
  obtain ⟨fields', hfields', hsound', htext⟩ := h fields hsound
  exact ⟨fields', hfields', hsound'.flatten_finish.trans htext⟩

/-- A step of an expansion, with or without splitting: it fails, or adds text that differs in
blanks only. -/
inductive Emits (f : Bool → Fields → Except Failure Fields) : Prop
  | fails (e : Failure) :
      (∀ split (fields : Fields), fields.Sound split → f split fields = .error e) → Emits f
  | adds (t : Bool → Text) : (∀ split, Adds split (f split) (t split)) →
      (t true).unblanked = (t false).unblanked → Emits f

namespace Emits

variable {α : Type} {f g : Bool → Fields → Except Failure Fields}

theorem nothing : Emits fun _ fields => .ok fields :=
  .adds (fun _ => []) (fun _ fields h => ⟨fields, rfl, h, (List.append_nil _).symm⟩) rfl

theorem literal (s : Text) : Emits fun _ fields => .ok (fields.literal s) :=
  .adds (fun _ => s) (fun _ _ h => ⟨_, rfl, h.literal s⟩) rfl

theorem error (e : Failure) : Emits fun _ _ => .error e := .fails e fun _ _ _ => rfl

theorem bind (hf : Emits f) (hg : Emits g) :
    Emits fun split fields => f split fields >>= g split := by
  cases hf with
  | fails e hf => exact .fails e fun split fields h => by rw [hf split fields h, error_bind]
  | adds t hf ht =>
    cases hg with
    | fails e hg =>
      refine .fails e fun split fields h => ?_
      obtain ⟨mid, hmid, hsound, -⟩ := hf split fields h
      rw [hmid, ok_bind, hg split mid hsound]
    | adds u hg hu =>
      refine .adds (fun split => t split ++ u split) (fun split fields h => ?_) ?_
      · obtain ⟨mid, hmid, hsound, htext⟩ := hf split fields h
        obtain ⟨last, hlast, hsound, htext'⟩ := hg split mid hsound
        exact ⟨last, by rw [hmid, ok_bind, hlast], hsound, by
          rw [htext', htext, List.append_assoc]⟩
      · rw [Text.unblanked_append, Text.unblanked_append, ht, hu]

theorem ofExcept {x : Except Failure α} {g : α → Bool → Fields → Except Failure Fields}
    (h : ∀ a, x = .ok a → Emits (g a)) :
    Emits fun split fields => x >>= fun a => g a split fields := by
  cases x with
  | error e => exact error e
  | ok a => exact h a rfl

end Emits

namespace Fields

/-- Splitting a value takes the separators out of it. -/
theorem Sound.foldl_addSplit (separators value : Text) {fields : Fields} (h : fields.Sound true) :
    (value.foldl (addSplit separators) fields).Sound true ∧
      (value.foldl (addSplit separators) fields).text =
        fields.text ++ value.filter (· ∉ separators) := by
  induction value generalizing fields with
  | nil => exact ⟨h, (List.append_nil _).symm⟩
  | cons c value ih =>
    rw [List.foldl_cons, addSplit]
    split
    · next hc =>
      obtain ⟨hsound, htext⟩ := ih h.endField.1
      rw [List.filter_cons_of_neg (by simpa using hc)]
      exact ⟨hsound, htext.trans (by rw [h.endField.2])⟩
    · next hc =>
      obtain ⟨hsound, htext⟩ := ih (h.literal [c]).1
      rw [List.filter_cons_of_pos (by simpa using hc)]
      exact ⟨hsound, htext.trans (by rw [(h.literal [c]).2, List.append_assoc]; rfl)⟩

end Fields

namespace Scope

variable (scope : Scope) (quoted : Bool)

theorem separators_subset {scope : Scope} {separators : Text}
    (h : scope.separators = .ok separators) : separators ⊆ defaultSeparators := by
  simp only [Scope.separators] at h
  split at h
  · next hall =>
    cases h
    exact fun c hc => of_decide_eq_true (List.all_eq_true.1 hall c hc)
  · cases h

theorem emits_unquoted (value : Text) {separators : Text} (h : separators ⊆ defaultSeparators) :
    Emits fun split fields => .ok (fields.unquoted split separators value) := by
  refine .adds (fun split => if split then value.filter (· ∉ separators) else value)
    (fun split fields hsound => ?_) ?_
  · cases split with
    | false => exact ⟨_, rfl, hsound.literal value⟩
    | true => exact ⟨_, rfl, hsound.foldl_addSplit separators value⟩
  · rw [if_pos rfl, if_neg Bool.false_ne_true, Text.unblanked, Text.unblanked, List.filter_filter]
    refine List.filter_congr fun c _ => ?_
    simpa using fun hc hsep => hc (h hsep)

theorem emits_emit (value : Option Text) :
    Emits fun split fields => scope.emit split quoted value fields := by
  cases value with
  | none => exact .nothing
  | some value =>
    unfold emit
    by_cases hq : quoted = true
    · simp only [hq, if_true]
      exact .literal value
    · simp only [hq]
      by_cases hglob : value.any isGlob = true
      · simp only [hglob, if_true]
        exact .error _
      · simp only [hglob]
        exact .ofExcept fun separators h => emits_unquoted value (separators_subset h)

theorem emits_separate : Emits fun split fields => .ok (fields.separate split quoted) := by
  refine .adds (fun split => if split then [] else [' ']) (fun split fields h => ?_) rfl
  cases split with
  | false =>
    exact ⟨_, rfl, ⟨nofun, h.done⟩, (List.append_assoc ..).symm⟩
  | true =>
    cases quoted with
    | false => exact ⟨_, rfl, h.endField.1, h.endField.2.trans (List.append_nil _).symm⟩
    | true => exact ⟨_, rfl, ⟨fun _ _ => rfl, nofun⟩, by simp [Fields.separate, Fields.text]⟩

theorem emits_emitRest (values : List Text) :
    Emits fun split fields => scope.emitRest split quoted values fields := by
  induction values with
  | nil => exact .nothing
  | cons value values ih =>
    exact (emits_separate quoted).bind ((scope.emits_emit quoted (some value)).bind ih)

theorem emits_emitList (values : List Text) :
    Emits fun split fields => scope.emitList split quoted values fields := by
  cases values with
  | nil => exact .nothing
  | cons value values =>
    exact (scope.emits_emit quoted (some value)).bind (scope.emits_emitRest quoted values)

theorem emits_emitValue (name : Text) :
    Emits fun split fields => scope.emitValue split quoted name fields := by
  unfold emitValue
  by_cases hcount : name = ['#']
  · simp only [hcount, if_true]
    exact scope.emits_emit quoted _
  · simp only [hcount, if_false]
    by_cases hjoined : name = ['*'] ∧ quoted = true
    · simp only [hjoined, and_self, if_true]
      exact .ofExcept fun joined _ => scope.emits_emit true (some joined)
    · simp only [hjoined, if_false]
      refine .ofExcept fun parameter _ => ?_
      cases parameter with
      | scalar value => exact scope.emits_emit quoted value
      | list values => exact scope.emits_emitList quoted values

theorem emits_emitLength (name : Text) :
    Emits fun split fields => scope.emitLength split quoted name fields := by
  refine .ofExcept fun parameter _ => ?_
  cases parameter with
  | scalar value => exact scope.emits_emit quoted _
  | list values => exact .error _

end Scope

/-! ## Pieces -/

mutual

theorem Piece.eval_emits (scope : Scope) :
    ∀ piece : Piece, Emits fun split fields => piece.eval scope split fields
  | .text s => .literal s
  | .home => by
    unfold Piece.eval
    cases scope.value? "HOME".toList with
    | none => exact .error _
    | some directory => exact .literal directory
  | .value quoted name => scope.emits_emitValue quoted name
  | .length quoted name => scope.emits_emitLength quoted name
  | .choice quoted .default nonEmpty name word => by
    unfold Piece.eval
    refine .ofExcept fun value _ => ?_
    by_cases h : counts nonEmpty value = true
    · simp only [h, if_true]
      exact scope.emits_emit quoted value
    · simp only [h]
      exact Piece.evalAll_emits scope word
  | .choice _ .alternative nonEmpty name word => by
    unfold Piece.eval
    refine .ofExcept fun value _ => ?_
    by_cases h : counts nonEmpty value = true
    · simp only [h, if_true]
      exact Piece.evalAll_emits scope word
    · simp only [h]
      exact .nothing
  | .rejected name e => .ofExcept fun _ _ => .error e
  | .failure e => .error e

/-- **Pieces fail, or add text**, whatever the fields are they are added to. -/
theorem Piece.evalAll_emits (scope : Scope) :
    ∀ pieces : List Piece, Emits fun split fields => Piece.evalAll scope split pieces fields
  | [] => .nothing
  | piece :: pieces => (Piece.eval_emits scope piece).bind (Piece.evalAll_emits scope pieces)

end

end ShellFold
