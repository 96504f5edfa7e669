import ShellFold.Expansion.Evaluate
import ShellFold.Proofs.Attempt

/-!
# What success depends on

Whether a word expands depends on which variables are set, which are empty and which hold
characters of file name patterns, and on nothing else about their values: `Piece.evalAll_similar`
takes success from one scope to another that is `Scope.Similar` to it.
-/

set_option autoImplicit false

namespace ShellFold

/-- The second value may stand in for the first: it is set and empty when the first is, and holds
no pattern character if the first holds none. -/
inductive SimilarValue : Option Text → Option Text → Prop
  | unset : SimilarValue none none
  | set {u w : Text} : u.isEmpty = w.isEmpty → (w.any isGlob = true → u.any isGlob = true) →
      SimilarValue (some u) (some w)

theorem SimilarValue.refl (u : Option Text) : SimilarValue u u := by
  cases u with
  | none => exact .unset
  | some u => exact .set rfl id

/-- The second scope may stand in for the first where only success matters. -/
structure Scope.Similar (a b : Scope) : Prop where
  positional : a.positional = b.positional
  options : a.options = b.options
  separators : a.separators = b.separators
  value : ∀ name, SimilarValue (a.value? name) (b.value? name)

/-- The digits of a number are no pattern. -/
theorem toDigits_any_isGlob (n : Nat) : (Nat.toDigits 10 n).any isGlob = false := by
  rw [Bool.eq_false_iff]
  intro h
  obtain ⟨c, hc, hglob⟩ := List.any_eq_true.1 h
  have hdigit := Nat.isDigit_of_mem_toDigits (by decide) (by decide) hc
  simp only [isGlob, Bool.or_eq_true, decide_eq_true_eq] at hglob
  rcases hglob with (rfl | rfl) | rfl <;> cases hdigit

/-- What a parameter stands for in two similar scopes. -/
inductive SimilarParameter : Parameter → Parameter → Prop
  | scalar {u w : Option Text} : SimilarValue u w → SimilarParameter (.scalar u) (.scalar w)
  | list {values : List Text} : SimilarParameter (.list values) (.list values)

theorem SimilarValue.counts {u w : Option Text} (h : SimilarValue u w) (nonEmpty : Bool) :
    counts nonEmpty u = counts nonEmpty w := by
  cases h with
  | unset => rfl
  | set he => simp [ShellFold.counts, he]

namespace Scope

variable {a b : Scope} (hab : a.Similar b) {split quoted : Bool}
include hab

/-- A value is taken where another is, if it holds no pattern character that the other lacks. -/
theorem emit_some_similar {u w : Text} (hglob : w.any isGlob = true → u.any isGlob = true)
    {fields : Fields} (h : (a.emit split quoted (some u) fields).isOk = true) (fields' : Fields) :
    (b.emit split quoted (some w) fields').isOk = true := by
  simp only [emit] at h ⊢
  split
  · rfl
  · next hq =>
    rw [if_neg hq] at h
    split
    · next hw =>
      rw [if_pos (hglob hw)] at h
      cases h
    · next hw =>
      split at h
      · cases h
      · rw [← hab.separators]
        rcases hs : a.separators with e | separators
        · rw [hs] at h
          cases h
        · rfl

theorem emit_similar {u w : Option Text} (hv : SimilarValue u w) {fields : Fields}
    (h : (a.emit split quoted u fields).isOk = true) (fields' : Fields) :
    (b.emit split quoted w fields').isOk = true := by
  cases hv with
  | unset => rfl
  | set _ hglob => exact emit_some_similar hab hglob h fields'

theorem emitRest_similar (values : List Text) : ∀ {fields : Fields} (fields' : Fields),
    (a.emitRest split quoted values fields).isOk = true →
      (b.emitRest split quoted values fields').isOk = true := by
  induction values with
  | nil => intro _ _ _; rfl
  | cons value values ih =>
    intro fields fields' h
    obtain ⟨mid, hmid, h⟩ := bind_isOk.1 h
    obtain ⟨mid', hmid'⟩ := isOk_iff.1
      (emit_similar hab (.refl _) (isOk_iff.2 ⟨mid, hmid⟩) (fields'.separate split quoted))
    exact bind_isOk.2 ⟨mid', hmid', ih mid' h⟩

theorem emitList_similar (values : List Text) {fields : Fields} (fields' : Fields)
    (h : (a.emitList split quoted values fields).isOk = true) :
    (b.emitList split quoted values fields').isOk = true := by
  cases values with
  | nil => rfl
  | cons value values =>
    obtain ⟨mid, hmid, h⟩ := bind_isOk.1 h
    obtain ⟨mid', hmid'⟩ := isOk_iff.1
      (emit_similar hab (.refl _) (isOk_iff.2 ⟨mid, hmid⟩) fields')
    exact bind_isOk.2 ⟨mid', hmid', emitRest_similar hab values mid' h⟩

theorem lookup_similar {name : Text} {parameter : Parameter}
    (h : a.lookup name = .ok parameter) :
    ∃ parameter', b.lookup name = .ok parameter' ∧ SimilarParameter parameter parameter' := by
  have hpositional : b.positional? = a.positional? := by
    funext n
    cases n <;> simp [positional?, hab.positional]
  by_cases hname : Text.isName name = true
  · simp only [lookup, if_pos hname] at h ⊢
    cases h
    exact ⟨_, rfl, .scalar (hab.value name)⟩
  · simp only [lookup, if_neg hname, ← hab.positional, ← hab.options, hpositional] at h ⊢
    rw [h]
    refine ⟨parameter, rfl, ?_⟩
    cases parameter with
    | scalar value => exact .scalar (.refl value)
    | list values => exact .list

theorem emitValue_similar {name : Text} {fields : Fields} (fields' : Fields)
    (h : (a.emitValue split quoted name fields).isOk = true) :
    (b.emitValue split quoted name fields').isOk = true := by
  unfold emitValue at h ⊢
  split
  · next hn =>
    rw [if_pos hn] at h
    rw [← hab.positional]
    exact emit_similar hab (.refl _) h fields'
  · next hn =>
    rw [if_neg hn] at h
    split
    · next hs =>
      rw [if_pos hs] at h
      obtain ⟨joined, hjoined, h⟩ := bind_isOk.1 h
      have : b.joined = a.joined := by simp [Scope.joined, hab.positional, hab.separators]
      rw [this]
      exact bind_isOk.2 ⟨joined, hjoined, emit_similar hab (.refl _) h fields'⟩
    · next hs =>
      rw [if_neg hs] at h
      obtain ⟨parameter, hlookup, h⟩ := bind_isOk.1 h
      obtain ⟨parameter', hlookup', hsimilar⟩ := lookup_similar hab hlookup
      refine bind_isOk.2 ⟨parameter', hlookup', ?_⟩
      cases hsimilar with
      | scalar hv => exact emit_similar hab hv h fields'
      | list => exact emitList_similar hab _ fields' h

theorem emitLength_similar {name : Text} {fields : Fields} (fields' : Fields)
    (h : (a.emitLength split quoted name fields).isOk = true) :
    (b.emitLength split quoted name fields').isOk = true := by
  obtain ⟨parameter, hlookup, h⟩ := bind_isOk.1 h
  obtain ⟨parameter', hlookup', hsimilar⟩ := lookup_similar hab hlookup
  refine bind_isOk.2 ⟨parameter', hlookup', ?_⟩
  cases hsimilar with
  | list => cases h
  | @scalar u w _ =>
    refine emit_some_similar hab (fun hglob => ?_) h fields'
    rw [toDigits_any_isGlob] at hglob
    cases hglob

theorem lookupScalar_similar {name : Text} {value : Option Text}
    (h : a.lookupScalar name = .ok value) :
    ∃ value', b.lookupScalar name = .ok value' ∧ SimilarValue value value' := by
  obtain ⟨parameter, hlookup, h⟩ := bind_eq_ok.1 h
  obtain ⟨parameter', hlookup', hsimilar⟩ := lookup_similar hab hlookup
  cases hsimilar with
  | list => cases h
  | @scalar u w hv =>
    cases h
    exact ⟨w, bind_eq_ok.2 ⟨.scalar w, hlookup', rfl⟩, hv⟩

end Scope

/-! ## Pieces -/

mutual

theorem Piece.eval_similar {a b : Scope} (hab : a.Similar b) {split : Bool} :
    ∀ (piece : Piece) {fields : Fields} (fields' : Fields),
    (piece.eval a split fields).isOk = true → (piece.eval b split fields').isOk = true
  | .text _, _, _, _ => rfl
  | .home, _, _, h => by
    have hv := hab.value "HOME".toList
    simp only [Piece.eval] at h ⊢
    generalize a.value? "HOME".toList = u at h hv
    generalize b.value? "HOME".toList = w at hv ⊢
    cases hv with
    | unset => cases h
    | set => rfl
  | .value _ _, _, fields', h => Scope.emitValue_similar hab fields' h
  | .length _ _, _, fields', h => Scope.emitLength_similar hab fields' h
  | .choice _ .default nonEmpty name word, fields, fields', h => by
    obtain ⟨value, hvalue, h⟩ := bind_isOk.1 h
    obtain ⟨value', hvalue', hv⟩ := Scope.lookupScalar_similar hab hvalue
    refine bind_isOk.2 ⟨value', hvalue', ?_⟩
    rw [← hv.counts]
    split
    · next hc =>
      rw [if_pos hc] at h
      exact Scope.emit_similar hab hv h fields'
    · next hc =>
      rw [if_neg hc] at h
      exact Piece.evalAll_similar hab word fields' h
  | .choice _ .alternative nonEmpty name word, fields, fields', h => by
    obtain ⟨value, hvalue, h⟩ := bind_isOk.1 h
    obtain ⟨value', hvalue', hv⟩ := Scope.lookupScalar_similar hab hvalue
    refine bind_isOk.2 ⟨value', hvalue', ?_⟩
    rw [← hv.counts]
    split
    · next hc =>
      rw [if_pos hc] at h
      exact Piece.evalAll_similar hab word fields' h
    · rfl
  | .rejected name e, _, _, h => by
    obtain ⟨value, -, h⟩ := bind_isOk.1 h
    cases h
  | .failure _, _, _, h => by cases h

/-- Pieces that have a value in a scope have one in every similar scope. -/
theorem Piece.evalAll_similar {a b : Scope} (hab : a.Similar b) {split : Bool} :
    ∀ (pieces : List Piece) {fields : Fields} (fields' : Fields),
    (Piece.evalAll a split pieces fields).isOk = true →
      (Piece.evalAll b split pieces fields').isOk = true
  | [], _, _, _ => rfl
  | piece :: pieces, _, fields', h => by
    obtain ⟨mid, hmid, h⟩ := bind_isOk.1 h
    obtain ⟨mid', hmid'⟩ := isOk_iff.1
      (Piece.eval_similar hab piece fields' (isOk_iff.2 ⟨mid, hmid⟩))
    exact bind_isOk.2 ⟨mid', hmid', Piece.evalAll_similar hab pieces mid' h⟩

end

end ShellFold
