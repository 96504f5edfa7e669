import Mathlib.Data.List.Basic
import ShellFold.Proofs.Expansion.Indexed

/-!
# Positions stay within a word

What is found by position in a word is what is found at the front of the rest of it
(`word.drop i`): the parts, the runs and the closing brace (`slice_of_drop`, `runEnd_eq`,
`closingBrace_eq`). So a dollar sign and a quotation are passed and no more than there is
(`dollar_bounds`, `quotation_bounds`), and what is gone on with within braces, and behind an
operator, is shorter (`dollar_congr`, `braces_congr`). That a function goes on with shorter words only is said
by the fact that functions which agree on these can be put in each other's place.
-/

set_option autoImplicit false

namespace ShellFold.Indexed

/-! ## Positions -/

section

variable {word rest : Text} {c : Char} {i : Nat}

theorem lt_length_of_drop (h : word.drop i = c :: rest) : i < word.length := by
  rw [← Nat.not_le, ← List.drop_eq_nil_iff, h]
  simp

theorem drop_succ (h : word.drop i = c :: rest) : word.drop (i + 1) = rest := by
  rw [← List.drop_drop, h, List.drop_one, List.tail_cons]

/-- What is left behind a position is shorter than what is left at it. -/
theorem length_drop_lt {limit : Nat} (h : word.drop i = c :: rest)
    (hlimit : (word.drop i).length < limit + 1) {j : Nat} (hj : i < j) :
    (word.drop j).length < limit := by
  have hi := lt_length_of_drop h
  rw [List.length_drop] at hlimit ⊢
  omega

theorem drop_add_length {part behind : Text} (h : word.drop i = part ++ behind) :
    word.drop (i + part.length) = behind := by
  rw [← List.drop_drop, h, List.drop_left]

theorem getElem?_of_drop (h : word.drop i = rest) (k : Nat) : word[i + k]? = rest[k]? := by
  rw [← h, List.getElem?_drop]

theorem charAt_of_drop (h : word.drop i = c :: rest) : charAt word i = .ok c := by
  have hc := getElem?_of_drop h 0
  rw [Nat.add_zero, List.getElem?_cons_zero] at hc
  rw [charAt, hc]

theorem slice_of_drop {part behind : Text} (h : word.drop i = part ++ behind)
    (hi : i ≤ word.length) : slice word i (i + part.length) = .ok part := by
  have hlength := congrArg List.length h
  rw [List.length_drop, List.length_append] at hlength
  rw [slice, if_pos (by omega), List.drop_take, h, Nat.add_sub_cancel_left, List.take_left]

theorem length_of_slice {start stop : Nat} {part : Text} (h : slice word start stop = .ok part) :
    start + part.length ≤ word.length := by
  rw [slice] at h
  split at h
  · cases h
    rw [List.length_drop, List.length_take]
    omega
  · cases h

theorem slice_all (word : Text) {start : Nat} (h : start ≤ word.length) :
    slice word start word.length = .ok (word.drop start) := by
  rw [slice, if_pos ⟨h, Nat.le_refl _⟩, List.take_length]

/-- Looking for a character by position never leaves the word, and finds the first one. -/
theorem find_eq (p : Char → Bool) (word : Text) (i : Nat) :
    find p word i = .ok (((word.drop i).findIdx? p).map (i + ·)) := by
  rw [find]
  induction hn : word.length - i generalizing i with
  | zero =>
    rw [List.drop_eq_nil_iff.2 (by omega)]
    rfl
  | succ n ih =>
    have hi : ¬word.length ≤ i := by omega
    obtain ⟨c, rest, hdrop⟩ := List.exists_cons_of_ne_nil (mt List.drop_eq_nil_iff.1 hi)
    have ih := ih (i + 1) (by omega)
    rw [drop_succ hdrop] at ih
    rw [List.range'_succ, List.findM?, charAt_of_drop hdrop, ih, hdrop, List.findIdx?_cons, ok_bind,
      pure_bind]
    cases p c with
    | true => rfl
    | false =>
      simp only [Option.map_map, Bool.false_eq_true, if_false]
      congr 2
      funext k
      simp only [Function.comp]
      omega

theorem findIdx?_mark (mark : Char) (s : Text) :
    s.findIdx? (· = mark) = (s.splitOnce? mark).map (·.1.length) := by
  induction s with
  | nil => rfl
  | cons c s ih =>
    rw [List.findIdx?_cons, Text.splitOnce?, ih]
    by_cases hc : c = mark <;> simp [hc, Option.map_map, Function.comp_def]

/-- Looking for a mark by position finds the one at which the rest of the word is cut. -/
theorem find_mark (mark : Char) (h : word.drop i = rest) :
    find (· = mark) word i = .ok ((rest.splitOnce? mark).map fun cut => i + cut.1.length) := by
  rw [find_eq, h, findIdx?_mark, Option.map_map]
  rfl

/-- A run by position ends where the characters of the kind end. -/
theorem runEnd_eq (p : Char → Bool) {word : Text} {i : Nat} (hi : i ≤ word.length) :
    runEnd p word i = .ok (i + ((word.drop i).takeWhile p).length) := by
  have hrun : (word.drop i).findIdx (!p ·) ≤ (word.drop i).length := List.findIdx_le_length
  rw [runEnd, find_eq, ok_bind, List.takeWhile_eq_take_findIdx_not, List.length_take,
    Nat.min_eq_left hrun, List.findIdx_eq_getD_findIdx?]
  cases (word.drop i).findIdx? (!p ·) with
  | none =>
    rw [Option.getD_none, List.length_drop, Nat.add_sub_cancel' hi]
    rfl
  | some k => rfl

/-- Positions in what is cut off behind a front that has been passed. -/
theorem map_position (cut? : Option (Text × Text)) (front : Text) (i : Nat) :
    (cut?.map fun cut => i + front.length + cut.1.length) =
      (cut?.map fun cut => (front ++ cut.1, cut.2)).map fun cut => i + cut.1.length := by
  rw [Option.map_map]
  congr 1
  funext cut
  rw [Function.comp, List.length_append, Nat.add_assoc]

/-- Looking for a closing brace by position never leaves the word, and finds the one that a cut of
what stands there finds. -/
theorem closingBrace_eq (word : Text) (depth i : Nat) :
    closingBrace word (depth + 1) i =
      .ok ((closingBraceFrom? depth (word.drop i)).map fun cut => i + cut.1.length) := by
  generalize hs : word.drop i = s
  fun_induction closingBraceFrom? depth s generalizing i with
  | case1 depth =>
    rw [closingBrace, dif_neg (Nat.not_lt.2 (List.drop_eq_nil_iff.1 hs))]
    rfl
  | case2 depth c rest ih =>
    rw [closingBrace, dif_pos (lt_length_of_drop hs), charAt_of_drop hs, ok_bind, if_pos rfl,
      ih (i + 2) (drop_succ (drop_succ hs))]
    exact congrArg Except.ok (map_position _ ['\\', c] i)
  | case3 rest hc =>
    rw [closingBrace, dif_pos (lt_length_of_drop hs), charAt_of_drop hs]
    rfl
  | case4 rest depth hc ih =>
    rw [closingBrace, dif_pos (lt_length_of_drop hs), charAt_of_drop hs, ok_bind,
      if_neg (by decide), if_neg (by decide), if_pos rfl, Nat.add_sub_cancel, if_neg (by omega),
      ih (i + 1) (drop_succ hs)]
    exact congrArg Except.ok (map_position _ ['}'] i)
  | case5 depth c rest hesc hc ih =>
    rw [closingBrace, dif_pos (lt_length_of_drop hs), charAt_of_drop hs, ok_bind]
    have hnext := drop_succ hs
    by_cases hbackslash : c = '\\'
    · -- A backslash at the very end hides nothing, and the next position is past the end.
      have hrest : rest = [] := by
        cases rest with
        | nil => rfl
        | cons d rest => exact absurd rfl (hesc d rest hbackslash)
      subst hrest
      rw [if_pos hbackslash, closingBrace, dif_neg]
      · rfl
      · have := List.drop_eq_nil_iff.1 hnext
        omega
    · have hfound := (ih (i + 1) hnext).trans (congrArg Except.ok (map_position _ [c] i))
      rw [if_neg hbackslash]
      refine Eq.trans ?_ hfound
      by_cases hopen : c = '{'
      · rw [if_pos hopen, if_pos hopen]
      · rw [if_neg hopen, if_neg hc, if_neg hopen]

/-- A number of bytes that is that of characters of one byte each cuts behind these. -/
theorem cutBytes_append {front : Text} (h : ∀ c ∈ front, c.utf8Size = 1) (behind : Text) :
    cutBytes front.length (front ++ behind) = .ok (front, behind) := by
  induction front with
  | nil => cases behind <;> rfl
  | cons c front ih =>
    obtain ⟨hc, hfront⟩ := List.forall_mem_cons.1 h
    rw [List.cons_append, List.length_cons, cutBytes, if_neg (by omega), if_pos (by omega), hc,
      Nat.add_sub_cancel, ih hfront]
    rfl

end

/-! ## Names -/

theorem nameLength_eq (body : Text) : nameLength body = (parameterName body).1.length := by
  cases body with
  | nil => rfl
  | cons c rest =>
    simp only [nameLength, parameterName]
    split
    · next hstart =>
      rw [List.takeWhile_cons_of_pos (Text.isNameChar_of_isNameStart hstart), List.length_cons,
        Nat.add_comm]
    · split
      · next hdigit =>
        rw [List.takeWhile_cons_of_pos hdigit, List.length_cons, Nat.add_comm]
      · split <;> rfl

theorem utf8Size_of_toNat {c : Char} (h : c.toNat ≤ 127) : c.utf8Size = 1 :=
  Char.utf8Size_eq_one_iff.2 (UInt32.le_iff_toNat_le.2 h)

theorem utf8Size_of_isNameChar {c : Char} (h : Text.isNameChar c = true) : c.utf8Size = 1 := by
  rcases Bool.or_eq_true_iff.1 h with h | h
  · have := Text.toNat_of_isAlphanum h
    exact utf8Size_of_toNat (by omega)
  · rw [of_decide_eq_true h]
    rfl

/-- The characters of a parameter name take one byte each. -/
theorem utf8Size_of_mem_parameterName {body : Text} {c : Char} (h : c ∈ (parameterName body).1) :
    c.utf8Size = 1 := by
  unfold parameterName at h
  split at h
  · cases h
  · split at h
    · exact utf8Size_of_isNameChar (List.all_eq_true.1 List.all_takeWhile c h)
    · split at h
      · have := Text.toNat_of_isDigit (List.all_eq_true.1 List.all_takeWhile c h)
        exact utf8Size_of_toNat (by omega)
      · split at h
        · next hspecial =>
          cases List.mem_singleton.1 h
          simp only [isSpecialParameter, List.mem_cons, List.not_mem_nil, or_false,
            decide_eq_true_eq] at hspecial
          rcases hspecial with rfl | rfl | rfl | rfl | rfl | rfl | rfl <;> rfl
        · cases h

/-! ## Bounds -/

section

variable {scope : Scope} {split quoted : Bool} {word : Text} {fields fields' : Fields} {i j : Nat}

/-- The position of a closing brace is in the word, and not in front of where it is looked for. -/
theorem closingBrace_bounds (h : closingBrace word 1 i = .ok (some j)) :
    i ≤ j ∧ j < word.length := by
  rw [show 1 = 0 + 1 from rfl, closingBrace_eq, Except.ok.injEq, Option.map_eq_some_iff] at h
  obtain ⟨⟨body, after⟩, hcut, rfl⟩ := h
  have hlength := congrArg List.length (eq_of_closingBraceFrom? hcut)
  simp only [List.length_drop, List.length_append, List.length_cons] at hlength ⊢
  omega

theorem runEnd_bounds {p : Char → Bool} (hi : i ≤ word.length) (h : runEnd p word i = .ok j) :
    i ≤ j ∧ j ≤ word.length := by
  rw [runEnd_eq p hi, Except.ok.injEq] at h
  have hrun := (List.takeWhile_prefix p (l := word.drop i)).length_le
  rw [List.length_drop] at hrun
  omega

/-- A dollar sign is passed, and no more than there is. -/
theorem dollar_bounds {inside : Text → Fields → Except Stop Fields} (hi : i < word.length)
    (h : dollar scope split quoted inside word i fields = .ok (j, fields')) :
    i < j ∧ j ≤ word.length := by
  unfold dollar at h
  split at h
  · cases h
    omega
  · next c hc =>
    have hnext := (List.getElem?_eq_some_iff.1 hc).1
    -- Braces, a parenthesis, a quote, a name, a parameter of one character, and no parameter.
    split at h
    · obtain ⟨stop?, hbrace, h⟩ := bind_eq_ok.1 h
      cases stop? with
      | none => cases h
      | some stop =>
        obtain ⟨part, -, h⟩ := bind_eq_ok.1 h
        obtain ⟨_, -, h⟩ := bind_eq_ok.1 h
        cases h
        have := closingBrace_bounds hbrace
        omega
    · split at h
      · cases h
      · split at h
        · cases h
        · split at h
          · obtain ⟨stop, hstop, h⟩ := bind_eq_ok.1 h
            obtain ⟨name, -, h⟩ := bind_eq_ok.1 h
            obtain ⟨_, -, h⟩ := bind_eq_ok.1 h
            cases h
            have := runEnd_bounds (by omega) hstop
            omega
          · split at h
            · obtain ⟨_, -, h⟩ := bind_eq_ok.1 h
              cases h
              omega
            · cases h
              omega

/-- The quote that ends a quotation is passed, and no more than there is. -/
theorem quotation_bounds {fuel : Nat} {sawList : Bool}
    (h : quotation scope split true fuel sawList word i fields = .ok (j, fields')) :
    i < j ∧ j ≤ word.length := by
  induction fuel generalizing sawList i fields with
  | zero =>
    rw [quotation] at h
    cases h
  | succ fuel ih =>
    rw [quotation] at h
    split at h
    · cases h
    · next c hc =>
      have hi := (List.getElem?_eq_some_iff.1 hc).1
      split at h
      · cases h
        omega
      · split at h
        · have := ih h
          omega
        · split at h
          · obtain ⟨⟨next, fields₁⟩, hdollar, h⟩ := bind_eq_ok.1 h
            have hnext := dollar_bounds hi hdollar
            have := ih h
            omega
          · split at h
            · cases h
            · have := ih h
              omega

/-! ## Shorter words -/

/-- What stands within the braces behind a dollar sign is shorter than the word. -/
theorem dollar_congr {inside inside' : Text → Fields → Except Stop Fields}
    (h : ∀ body : Text, body.length < word.length → inside body = inside' body) :
    dollar scope split quoted inside word i fields =
      dollar scope split quoted inside' word i fields := by
  unfold dollar
  split
  · rfl
  · next c hc =>
    have hnext := (List.getElem?_eq_some_iff.1 hc).1
    split
    · refine bind_congr_ok fun stop? _ => ?_
      cases stop? with
      | none => rfl
      | some stop =>
        refine bind_congr_ok fun body hbody => ?_
        have := length_of_slice hbody
        rw [h body (by omega)]
    · rfl


end

/-! ## References -/

section

variable (scope : Scope) (split quoted : Bool)

/-- Adds what a reference stands for; its nested word is left to `nested`. -/
def reference (nested : Text → Fields → Except Stop Fields) :
    Reference → Fields → Except Stop Fields
  | .value name, fields => ofExcept (scope.emitValue split quoted name fields)
  | .length name, fields => ofExcept (scope.emitLength split quoted name fields)
  | .choice .default nonEmpty name word, fields => do
    let value ← ofExcept (scope.lookupScalar name)
    if counts nonEmpty value then ofExcept (scope.emit split quoted value fields)
    else nested word fields
  | .choice .alternative nonEmpty name word, fields => do
    let value ← ofExcept (scope.lookupScalar name)
    if counts nonEmpty value then nested word fields else return fields
  | .rejected name e, _ => do
    let _ ← ofExcept (scope.lookupScalar name)
    fail e

theorem operation_eq (nested : Text → Fields → Except Stop Fields) (body name : Text)
    (nonEmpty : Bool) (operator : Char) (word : Text) (fields : Fields) :
    operation scope split quoted nested body name nonEmpty (operator :: word) fields =
      reference scope split quoted nested (Reference.ofOperator body name nonEmpty operator word)
        fields := by
  unfold Reference.ofOperator
  by_cases hdefault : operator = '-'
  · simp [operation, reference, hdefault]
  · by_cases halternative : operator = '+'
    · simp [operation, reference, halternative]
    · by_cases hassign : operator = '=' <;>
        simp [operation, reference, hdefault, halternative, hassign]

/-- A body that is not a length is read by its name. -/
theorem ofBody_of_not_length {body : Text} (h : ∀ c rest, body ≠ '#' :: c :: rest) :
    Reference.ofBody body =
      match parameterName body with
      | ([], _) => .error (.unimplemented (.expansion body))
      | (name, []) => .ok (.value name)
      | (_, [':']) => .error (.unimplemented (.substring body))
      | (name, ':' :: operator :: word) => .ok (Reference.ofOperator body name true operator word)
      | (name, operator :: word) => .ok (Reference.ofOperator body name false operator word) := by
  unfold Reference.ofBody
  split
  · next c rest => exact absurd rfl (h c rest)
  · rfl

/-- The body of an expansion, cut behind its name by position, is the reference that it is read
as. -/
theorem braces_eq (nested : Text → Fields → Except Stop Fields) (body : Text) (fields : Fields) :
    braces scope split quoted nested body fields =
      match Reference.ofBody body with
      | .ok ref => reference scope split quoted nested ref fields
      | .error e => fail e := by
  have hsize : ∀ c ∈ (parameterName body).1, c.utf8Size = 1 := fun c hc =>
    utf8Size_of_mem_parameterName hc
  have hcut := cutBytes_append hsize (parameterName body).2
  rw [parameterName_append] at hcut
  unfold braces
  split
  · rfl
  · next hlength =>
    rw [nameLength_eq, hcut, ok_bind, ofBody_of_not_length hlength]
    rcases parameterName body with ⟨_ | ⟨c, name⟩, _ | ⟨d, behind⟩⟩
    · rfl
    · rfl
    · rfl
    · by_cases hd : d = ':'
      · subst hd
        cases behind with
        | nil => rfl
        | cons operator word => exact operation_eq scope split quoted nested ..
      · simp [hd, operation_eq]

/-- The word of an expansion with an operator is shorter than the body it stands in, and no other is
gone on with. -/
theorem braces_congr {nested nested' : Text → Fields → Except Stop Fields} {body : Text}
    (h : ∀ word : Text, word.length < body.length → nested word = nested' word) (fields : Fields) :
    braces scope split quoted nested body fields =
      braces scope split quoted nested' body fields := by
  rw [braces_eq, braces_eq]
  cases hbody : Reference.ofBody body with
  | error e => rfl
  | ok ref =>
    have hword := h ref.word (Reference.length_word_of_ofBody hbody)
    cases ref with
    | choice which nonEmpty name word =>
      rw [Reference.word] at hword
      cases which <;> simp only [reference, hword]
    | _ => rfl

end

end ShellFold.Indexed
