import ShellFold.Proofs.Expansion.Braces
import ShellFold.Proofs.Expansion.Quotation

/-!
# References that are not split

A reference without an operator (`Text.IsReference`) takes one parameter, in double quotes as
without them (`Text.IsReference.exists_takes`). Where fields are not split the quotes make no
difference to what it adds, but for the list of parameters as one word: without quotes it is joined
by spaces, in quotes by the first separator of fields (`Builtin.expand_quoted_iff`).
-/

set_option autoImplicit false

namespace ShellFold

/-! ## References without an operator -/

/-- The text is a number as it stands in a reference. -/
def Text.IsNumber (s : Text) : Prop := s ≠ [] ∧ ∀ c ∈ s, c.isDigit = true

/-- A reference to a variable, to a positional parameter, to the number of these, to the options, or
to all positional parameters as one word. -/
inductive Text.IsReference : Text → Prop
  | name {name : Text} : name.isName = true → IsReference ('$' :: name)
  | bracedName {name : Text} : name.isName = true → IsReference ('$' :: '{' :: (name ++ ['}']))
  | number {digits : Text} : digits.IsNumber → IsReference ('$' :: digits)
  | bracedNumber {digits : Text} : digits.IsNumber → IsReference ('$' :: '{' :: (digits ++ ['}']))
  | count : IsReference ['$', '#']
  | options : IsReference ['$', '-']
  | all : IsReference ['$', '*']

theorem Text.IsNumber.isBraceless {digits : Text} (h : digits.IsNumber) : digits.IsBraceless :=
  fun c hc => Text.notMem_of_kind (h.2 c hc) (by decide)

theorem Reference.ofBody_of_isNumber {digits : Text} (h : digits.IsNumber) :
    ofBody digits = .ok (.value digits) := by
  obtain ⟨c, rest, rfl⟩ := List.exists_cons_of_ne_nil h.1
  have hc := h.2 c (.head _)
  have hstart : Text.isNameStart c = false := isNameStart_of_special (by rw [hc]; rfl)
  have hrun := Text.takeWhile_of_avoids h.2 (Text.avoids_nil _)
  rw [List.append_nil] at hrun
  refine ofBody_of_parameterName (fun hhead => ?_) ?_ h.1
  · cases hhead
    cases hc
  · rw [parameterName, if_neg (by simp [hstart]), if_pos hc, hrun.1, hrun.2]

/-- A reference takes one parameter; of a number without braces this is the first digit alone. -/
theorem Text.IsReference.exists_takes {r : Text} (h : r.IsReference) :
    ∃ name taken more, r = '$' :: taken ++ more ∧ (∀ c ∈ more, c.isDigit = true) ∧
      (name = ['*'] → r = ['$', '*']) ∧
      ∀ quoted rest, Text.Avoids isNameChar rest →
        Dollar.Takes quoted taken (more ++ rest) (.reference (.value name)) := by
  have hstar : ∀ {s : Text}, '*' ∉ s → s = ['*'] → r = ['$', '*'] := by
    rintro s hs rfl
    exact absurd (.head _) hs
  cases h with
  | @name name hname =>
    exact ⟨name, name, [], by simp, by simp, hstar (Text.notMem_of_isName hname (by decide)),
      fun _ _ hrest => .name hname hrest⟩
  | @bracedName name hname =>
    refine ⟨name, _, [], (List.append_nil _).symm, by simp,
      hstar (Text.notMem_of_isName hname (by decide)),
      fun _ _ _ => .braces ?_ (Reference.ofBody_of_isName hname)⟩
    exact closingBrace?_of_isBraceless (Text.isBraceless_of_isName hname)
  | @number digits hdigits =>
    obtain ⟨c, more, rfl⟩ := List.exists_cons_of_ne_nil hdigits.1
    obtain ⟨hc, hmore⟩ := List.forall_mem_cons.1 hdigits.2
    refine ⟨[c], [c], more, rfl, hmore, hstar fun hmem => ?_, fun _ _ _ => .special (by simp [hc])⟩
    rw [← List.mem_singleton.1 hmem] at hc
    cases hc
  | @bracedNumber digits hdigits =>
    refine ⟨digits, _, [], (List.append_nil _).symm, by simp,
      hstar fun hmem => absurd (hdigits.2 _ hmem) (by decide),
      fun _ _ _ => .braces ?_ (Reference.ofBody_of_isNumber hdigits)⟩
    exact closingBrace?_of_isBraceless hdigits.isBraceless
  | count => exact ⟨['#'], ['#'], [], rfl, by simp, by decide, fun _ _ _ => .special rfl⟩
  | options => exact ⟨['-'], ['-'], [], rfl, by simp, by decide, fun _ _ _ => .special rfl⟩
  | all => exact ⟨['*'], ['*'], [], rfl, by simp, fun _ => rfl, fun _ _ _ => .special rfl⟩

/-! ## What is added without quotes and in them -/

namespace Scope

section Values

variable {scope : Scope} {fields fields' : Fields}

theorem emit_quoted {value : Option Text} (h : scope.emit false false value fields = .ok fields') :
    scope.emit false true value fields = .ok fields' := by
  cases value with
  | none => exact h
  | some value =>
    rw [emit, if_neg Bool.false_ne_true] at h
    split at h
    · cases h
    · obtain ⟨separators, -, h⟩ := bind_eq_ok.1 h
      exact h

theorem emitRest_quoted_of_unquoted {values : List Text}
    (h : scope.emitRest false false values fields = .ok fields') :
    scope.emitRest false true values fields = .ok fields' := by
  induction values generalizing fields with
  | nil => exact h
  | cons value values ih =>
    obtain ⟨mid, hmid, h⟩ := bind_eq_ok.1 h
    exact bind_eq_ok.2 ⟨mid, emit_quoted hmid, ih h⟩

theorem emitList_quoted_of_unquoted {values : List Text}
    (h : scope.emitList false false values fields = .ok fields') :
    scope.emitList false true values fields = .ok fields' := by
  cases values with
  | nil => exact h
  | cons value values =>
    obtain ⟨mid, hmid, h⟩ := bind_eq_ok.1 h
    exact bind_eq_ok.2 ⟨mid, emit_quoted hmid, emitRest_quoted_of_unquoted h⟩

/-- What a parameter adds without quotes it adds in them, unless it is the list as one word. -/
theorem emitValue_quoted_of_unquoted {name : Text} (hname : name ≠ ['*'])
    (h : scope.emitValue false false name fields = .ok fields') :
    scope.emitValue false true name fields = .ok fields' := by
  have hlist : ∀ {quoted : Bool}, ¬(name = ['*'] ∧ quoted = true) := fun h => hname h.1
  unfold emitValue at h ⊢
  split
  · next hcount =>
    rw [if_pos hcount] at h
    exact emit_quoted h
  · next hcount =>
    rw [if_neg hcount, if_neg hlist] at h
    rw [if_neg hlist]
    obtain ⟨parameter, hlookup, h⟩ := bind_eq_ok.1 h
    refine bind_eq_ok.2 ⟨parameter, hlookup, ?_⟩
    cases parameter with
    | scalar value => exact emit_quoted h
    | list values => exact emitList_quoted_of_unquoted h

end Values

/-- A reference adds its parameter, without quotes and in them, and what stands behind it. -/
theorem expand_takes (scope : Scope) {name taken more : Text}
    (hmore : ∀ c ∈ more, c.isDigit = true)
    (htakes : ∀ quoted rest, Text.Avoids Text.isNameChar rest →
      Dollar.Takes quoted taken (more ++ rest) (.reference (.value name))) :
    (scope.expand .noSplit ('$' :: taken ++ more) =
      scope.emitValue false false name {} >>= fun fields => .ok [fields.current ++ more]) ∧
    (scope.expand .noSplit ('"' :: ('$' :: taken ++ more ++ ['"'])) =
      scope.emitValue false true name {} >>= fun fields => .ok [fields.current ++ more]) := by
  constructor
  · have hbare := htakes false [] (Text.avoids_nil _)
    have hplain : ∀ c ∈ more, Quoting.isPlain c = true := fun c hc =>
      Quoting.isPlain_of_kind (hmore c hc) (by decide)
    rw [List.append_nil] at hbare
    rw [expand, Piece.ofText_of_head (by simp),
      Piece.read_takes (q := .bare) (.dollar hbare) (by simp [Dollar.lexeme])]
    show (scope.emitValue false false name {} >>= _) >>= _ = _
    rcases scope.emitValue false false name {} with e | fields
    · rfl
    · exact scope.finish_plain fields hplain
  · have hquoted := htakes true ['"'] (fun c hc => by cases hc; decide)
    have hquotable : more.IsQuotable := fun c hc => Text.notMem_of_kind (hmore c hc) (by decide)
    have hread : Piece.read (.quoted (startsList taken)) (more ++ ['"']) =
        (more.map ([·]) ++ if startsList taken then [] else [[]]).map .text := by
      rw [Piece.read_quotable hquotable (by simp), Piece.read_closing]
      split <;> simp
    rw [expand, Piece.ofText_quoted (by decide), List.append_assoc,
      Piece.read_takes (q := .quoted false) (.dollar hquoted) (by simp [Dollar.lexeme])]
    show (scope.emitValue false true name {} >>= Piece.evalAll scope false (Piece.read
      (.quoted (startsList taken)) _)) >>= _ = _
    rcases scope.emitValue false true name {} with e | fields
    · rfl
    · rw [ok_bind, ok_bind, hread]
      refine (scope.finish_texts fields _).trans ?_
      rw [List.flatten_append, Text.flatten_characters]
      split <;> simp

end Scope

/-! ## The list of parameters as one word -/

theorem intercalate_cons (separator value : Text) (values : List Text) :
    separator.intercalate (value :: values) = value ++ values.flatMap (separator ++ ·) := by
  induction values generalizing value with
  | nil => simp [List.intercalate]
  | cons next values ih => simp [List.intercalate_cons_cons, ih]

theorem length_intercalate_nil_le (separator : Text) (values : List Text) :
    ([].intercalate values : Text).length ≤ (separator.intercalate values).length := by
  induction values with
  | nil => exact Nat.le_refl 0
  | cons value values ih =>
    cases values with
    | nil => exact Nat.le_refl _
    | cons next values =>
      simp only [List.intercalate_cons_cons, List.length_append, List.length_nil]
      omega

/-- A list joined by the first separator is the list joined by a space just if the first separator
is one, or there is nothing to be joined. -/
theorem intercalate_take_one_eq_iff (separators : Text) (values : List Text) :
    (separators.take 1).intercalate values = [' '].intercalate values ↔
      values.length ≤ 1 ∨ separators.head? = some ' ' := by
  match values with
  | [] | [_] => simp [List.intercalate]
  | value :: next :: values =>
    rw [List.intercalate_cons_cons, List.intercalate_cons_cons, List.append_assoc,
      List.append_assoc, List.append_cancel_left_eq]
    cases separators with
    | nil =>
      refine iff_of_false (fun heq => ?_) (by simp)
      have hlength := congrArg List.length heq
      have hle := length_intercalate_nil_le [' '] (next :: values)
      simp only [List.take_nil, List.nil_append, List.length_append, List.length_singleton]
        at hlength
      omega
    | cons c separators =>
      constructor
      · exact fun heq => .inr (congrArg some (List.cons.inj heq).1)
      · rintro (h | h)
        · simp at h
        · cases h
          rfl

namespace Scope

variable {scope : Scope}

theorem emitRest_unquoted {values : List Text} {fields fields' : Fields}
    (h : scope.emitRest false false values fields = .ok fields') :
    fields'.current = fields.current ++ values.flatMap (' ' :: ·) := by
  induction values generalizing fields with
  | nil =>
    cases h
    exact (List.append_nil _).symm
  | cons value values ih =>
    obtain ⟨mid, hmid, h⟩ := bind_eq_ok.1 h
    rw [ih h, (emit_eq_ok hmid).1]
    simp [Fields.separate]

theorem emitList_unquoted {values : List Text} {fields : Fields}
    (h : scope.emitList false false values {} = .ok fields) :
    fields.current = [' '].intercalate values := by
  cases values with
  | nil =>
    cases h
    rfl
  | cons value values =>
    obtain ⟨mid, hmid, h⟩ := bind_eq_ok.1 h
    rw [emitRest_unquoted h, (emit_eq_ok hmid).1, intercalate_cons]
    rfl

theorem joined_eq_ok {s : Text} : scope.joined = .ok s ↔
    ∃ separators, scope.separators = .ok separators ∧
      (separators.take 1).intercalate scope.positional = s := by
  rw [joined, bind_eq_ok]
  simp only [pure, Except.pure, Except.ok.injEq]

/-- The list as one word, without quotes and in them. -/
theorem expand_all (scope : Scope) :
    (scope.expand .noSplit ['$', '*'] =
      scope.emitList false false scope.positional {} >>= fun fields => .ok [fields.current]) ∧
    (scope.expand .noSplit ['"', '$', '*', '"'] =
      scope.joined >>= fun value => .ok [value]) := by
  have htakes : ∀ quoted rest, Text.Avoids Text.isNameChar rest →
      Dollar.Takes quoted ['*'] ([] ++ rest) (.reference (.value ['*'])) := fun _ _ _ =>
    .special rfl
  obtain ⟨hbare, hquoted⟩ := scope.expand_takes (fun c hc => by cases hc) htakes
  simp only [List.append_nil] at hbare hquoted
  refine ⟨hbare, hquoted.trans ?_⟩
  show (scope.joined >>= fun value => .ok (Fields.literal {} value)) >>= _ = _
  rcases scope.joined with e | value <;> rfl

/-- Without quotes the list is joined by spaces. -/
theorem expand_all_eq_ok {fields : List Text}
    (h : scope.expand .noSplit ['$', '*'] = .ok fields) :
    fields = [[' '].intercalate scope.positional] := by
  rw [scope.expand_all.1] at h
  obtain ⟨mid, hmid, heq⟩ := bind_eq_ok.1 h
  cases heq
  rw [emitList_unquoted hmid]

end Scope

/-- **Double quotes around a reference that is not split.** Let a reference without an operator
expand where fields are not split. In double quotes it expands to the same, in every state, unless
it is the list of parameters as one word. This is joined by spaces without quotes and by the first
separator in them, so that the two are the same just if there is at most one parameter or the first
separator is a space, in a state that can split values at all. -/
theorem Builtin.expand_quoted_iff (builtin : Builtin) {r : Text} (hr : r.IsReference)
    {fields : List Text}
    (hfields : ((Oracle.expand r .noSplit).outcome builtin).1 = .ok fields) :
    let quoted := ((Oracle.expand ('"' :: (r ++ ['"'])) .noSplit).outcome builtin).1
    (quoted = .ok fields ↔ (r = ['$', '*'] → ∃ separators,
      builtin.scope.separators = .ok separators ∧
        (builtin.scope.positional.length ≤ 1 ∨ separators.head? = some ' '))) ∧
    (r = ['$', '*'] → fields = [[' '].intercalate builtin.scope.positional] ∧
      quoted = builtin.scope.joined >>= fun value => .ok [value]) := by
  intro quoted
  by_cases hall : r = ['$', '*']
  · subst hall
    have hspaces := Scope.expand_all_eq_ok hfields
    have hquoted : quoted = builtin.scope.joined >>= fun value => .ok [value] :=
      builtin.scope.expand_all.2
    refine ⟨?_, fun _ => ⟨hspaces, hquoted⟩⟩
    rw [hquoted, hspaces, bind_eq_ok]
    simp only [forall_const, Scope.joined_eq_ok, Except.ok.injEq, List.cons.injEq, and_true]
    constructor
    · rintro ⟨value, ⟨separators, hseparators, rfl⟩, heq⟩
      exact ⟨separators, hseparators, (intercalate_take_one_eq_iff separators _).1 heq⟩
    · rintro ⟨separators, hseparators, hsame⟩
      exact ⟨_, ⟨separators, hseparators, rfl⟩, (intercalate_take_one_eq_iff separators _).2 hsame⟩
  · obtain ⟨name, taken, more, rfl, hmore, hstar, htakes⟩ := hr.exists_takes
    obtain ⟨hbare, hquoted⟩ := builtin.scope.expand_takes hmore htakes
    obtain ⟨mid, hmid, heq⟩ := bind_eq_ok.1 (hbare.symm.trans hfields)
    cases heq
    have hsame : quoted = .ok [mid.current ++ more] := by
      refine hquoted.trans ?_
      rw [Scope.emitValue_quoted_of_unquoted (fun h => hall (hstar h)) hmid, ok_bind]
    exact ⟨iff_of_true hsame fun h => absurd h hall, fun h => absurd h hall⟩

/-- Two parameters, where fields are split at tabs. -/
theorem Builtin.expand_quoted_iff_of_tab :
    let vars : Variables := Variables.ofList [("IFS".toList, { value := ['\t'] })]
    let builtin : Builtin := { scope := { vars, positional := [['a'], ['b']] } }
    let r : Text := ['$', '*']
    let quoted := ((Oracle.expand ('"' :: (r ++ ['"'])) .noSplit).outcome builtin).1
    (r.IsReference ∧ ((Oracle.expand r .noSplit).outcome builtin).1 = .ok ["a b".toList]) ∧
      quoted = .ok ["a\tb".toList] ∧ quoted ≠ .ok ["a b".toList] := by
  intro vars builtin r quoted
  have hfields : ((Oracle.expand r .noSplit).outcome builtin).1 = .ok ["a b".toList] :=
    builtin.scope.expand_all.1
  obtain ⟨hiff, hjoined⟩ := expand_quoted_iff builtin .all hfields
  refine ⟨⟨.all, hfields⟩, (hjoined rfl).2, fun hsame => ?_⟩
  obtain ⟨separators, hseparators, hlength | hhead⟩ := hiff.1 hsame rfl
  · exact absurd hlength (by decide)
  · cases hseparators
    cases hhead

end ShellFold
