import ShellFold.Failure
import ShellFold.Text.Name

/-!
# Parameter references

What a dollar sign in a word refers to. `Reference.ofBody` reads the body of an expansion in
braces, `closingBrace?` finds where such a body ends, and `afterDollar` reads what follows a
dollar sign anywhere.
-/

set_option autoImplicit false

namespace ShellFold

/-- Which of its two words an expansion with an operator yields. -/
inductive Choice
  /-- The value if the parameter is set, else the word. -/
  | default
  /-- The word if the parameter is set, else nothing. -/
  | alternative
  deriving DecidableEq, Repr

/-- A parameter expansion whose nested word, if any, is still source. -/
inductive Reference
  | value (name : Text)
  | length (name : Text)
  /-- With `nonEmpty`, a parameter that is empty counts as not set. -/
  | choice (choice : Choice) (nonEmpty : Bool) (name word : Text)
  /-- An expansion that fails once its parameter has been looked up. -/
  | rejected (name : Text) (failure : Failure)
  deriving DecidableEq, Repr

/-- The parameters named by one character that is neither a letter nor an underscore. -/
def isSpecialParameter (c : Char) : Bool :=
  c ∈ ['@', '*', '#', '-', '?', '$', '!']

/-- The parameter name at the front of a text, and what follows it. -/
def parameterName (s : Text) : Text × Text :=
  match s with
  | [] => ([], [])
  | c :: rest =>
    if Text.isNameStart c then (s.takeWhile Text.isNameChar, s.dropWhile Text.isNameChar)
    else if c.isDigit then (s.takeWhile Char.isDigit, s.dropWhile Char.isDigit)
    else if isSpecialParameter c then ([c], rest)
    else ([], s)

/-- A name and what follows it make up the text. -/
theorem parameterName_append (s : Text) : (parameterName s).1 ++ (parameterName s).2 = s := by
  unfold parameterName
  split
  · rfl
  · split
    · exact List.takeWhile_append_dropWhile
    · split
      · exact List.takeWhile_append_dropWhile
      · split <;> simp

namespace Reference

/-- The expansion with an operator, which stands in front of its word. -/
def ofOperator (body name : Text) (nonEmpty : Bool) (operator : Char) (word : Text) : Reference :=
  if operator = '-' then .choice .default nonEmpty name word
  else if operator = '+' then .choice .alternative nonEmpty name word
  else if operator = '=' then .rejected name (.impure .assignmentInExpansion)
  else .rejected name (.unimplemented (.expansion body))

/-- The expansion that a body in braces stands for. -/
def ofBody (body : Text) : Except Failure Reference :=
  match body with
  | '#' :: c :: rest => .ok (.length (c :: rest))
  | _ =>
    match parameterName body with
    | ([], _) => .error (.unimplemented (.expansion body))
    | (name, []) => .ok (.value name)
    | (_, [':']) => .error (.unimplemented (.substring body))
    | (name, ':' :: operator :: word) => .ok (ofOperator body name true operator word)
    | (name, operator :: word) => .ok (ofOperator body name false operator word)

def word : Reference → Text
  | choice _ _ _ w => w
  | _ => []

/-- A nested word is shorter than the body it stands in. -/
theorem length_word_of_ofBody {body : Text} {ref : Reference} (h : ofBody body = .ok ref) :
    ref.word.length < body.length := by
  have hop : ∀ b n e o w, (ofOperator b n e o w).word.length ≤ w.length := by
    intro b n e o w
    unfold ofOperator
    repeat' split
    all_goals simp [word]
  unfold ofBody at h
  split at h
  · simp only [Except.ok.injEq] at h
    subst h
    simp [word]
  · have hlen := congrArg List.length (parameterName_append body)
    split at h <;> simp_all only [reduceCtorEq, Except.ok.injEq, List.length_append,
      List.length_cons]
    · next hname _ =>
      subst h
      have := List.length_pos_iff.2 hname
      simp only [word, List.length_nil]
      omega
    · subst h
      refine Nat.lt_of_le_of_lt (hop ..) ?_
      omega
    · subst h
      refine Nat.lt_of_le_of_lt (hop ..) ?_
      omega

end Reference

/-- Cuts a text behind the brace that closes an expansion, `depth` further braces being open: the
body and what follows. A backslash hides the character after it. -/
def closingBraceFrom? (depth : Nat) : Text → Option (Text × Text)
  | [] => none
  | '\\' :: c :: rest =>
    (closingBraceFrom? depth rest).map fun (body, after) => ('\\' :: c :: body, after)
  | c :: rest =>
    if c = '}' then
      match depth with
      | 0 => some ([], rest)
      | depth + 1 => (closingBraceFrom? depth rest).map fun (body, after) => (c :: body, after)
    else
      (closingBraceFrom? (if c = '{' then depth + 1 else depth) rest).map
        fun (body, after) => (c :: body, after)

/-- The body of an expansion that has just been opened, and what follows its closing brace. -/
def closingBrace? (s : Text) : Option (Text × Text) := closingBraceFrom? 0 s

/-- The body, the closing brace and what follows make up the text. -/
theorem eq_of_closingBraceFrom? {depth : Nat} {s body after : Text}
    (h : closingBraceFrom? depth s = some (body, after)) : s = body ++ '}' :: after := by
  fun_induction closingBraceFrom? depth s generalizing body after with
  | case1 => simp at h
  | case2 depth c rest ih =>
    obtain ⟨⟨b, a⟩, hb, he⟩ := Option.map_eq_some_iff.1 h
    simp only [Prod.mk.injEq] at he
    obtain ⟨rfl, rfl⟩ := he
    simp [ih hb]
  | case3 rest hc =>
    simp only [Option.some.injEq, Prod.mk.injEq] at h
    obtain ⟨rfl, rfl⟩ := h
    rfl
  | case4 rest depth hc ih =>
    obtain ⟨⟨b, a⟩, hb, he⟩ := Option.map_eq_some_iff.1 h
    simp only [Prod.mk.injEq] at he
    obtain ⟨rfl, rfl⟩ := he
    simp [ih hb]
  | case5 depth c rest hc hne ih =>
    obtain ⟨⟨b, a⟩, hb, he⟩ := Option.map_eq_some_iff.1 h
    simp only [Prod.mk.injEq] at he
    obtain ⟨rfl, rfl⟩ := he
    simp [ih hb]

/-- What a dollar sign begins. -/
inductive Dollar
  /-- The sign stands for itself. -/
  | sign
  | reference (ref : Reference)
  | failure (e : Failure)
  deriving DecidableEq, Repr

/-- What a dollar sign in front of a text begins, and what follows that. -/
def afterDollar (quoted : Bool) (s : Text) : Dollar × Text :=
  match s with
  | [] => (.sign, [])
  | c :: rest =>
    if c = '{' then
      match closingBrace? rest with
      | none => (.failure (.early .unterminatedBrace), [])
      | some (body, after) =>
        match Reference.ofBody body with
        | .ok ref => (.reference ref, after)
        | .error e => (.failure e, after)
    else if c = '(' then
      (.failure (if rest.head? = some '(' then .unimplemented .arithmetic
        else .impure .commandSubstitution), rest)
    else if !quoted && (c = '\'' || c = '"') then (.failure (.unimplemented (.dollarQuote c)), rest)
    else if Text.isNameStart c then
      (.reference (.value (s.takeWhile Text.isNameChar)), s.dropWhile Text.isNameChar)
    else if c.isDigit || isSpecialParameter c then (.reference (.value [c]), rest)
    else (.sign, s)

theorem length_dropWhile_le {α : Type} (p : α → Bool) (l : List α) :
    (l.dropWhile p).length ≤ l.length := (List.dropWhile_suffix p).length_le

/-- Reading what a dollar sign begins never lengthens the text. -/
theorem length_afterDollar (quoted : Bool) (s : Text) :
    (afterDollar quoted s).2.length ≤ s.length := by
  unfold afterDollar
  split
  · simp
  · next c rest =>
    split
    · split
      · simp
      · next body after h =>
        have := congrArg List.length (eq_of_closingBraceFrom? h)
        simp only [List.length_append, List.length_cons] at this ⊢
        split <;> simp only <;> omega
    · repeat' split
      all_goals first
        | exact length_dropWhile_le _ _
        | simp

/-- The nested word of a reference is shorter than the text that begins with the reference. -/
theorem length_word_afterDollar {quoted : Bool} {s : Text} {ref : Reference}
    (h : (afterDollar quoted s).1 = .reference ref) : ref.word.length ≤ s.length := by
  unfold afterDollar at h
  split at h
  · simp at h
  · next c rest =>
    split at h
    · split at h
      · simp at h
      · next body after hb =>
        have := congrArg List.length (eq_of_closingBraceFrom? hb)
        simp only [List.length_append, List.length_cons] at this ⊢
        split at h
        · next hr =>
          simp only [Dollar.reference.injEq] at h
          subst h
          have := Reference.length_word_of_ofBody hr
          omega
        · simp at h
    · repeat' split at h
      all_goals simp at h
      all_goals subst h
      all_goals simp [Reference.word]

end ShellFold
