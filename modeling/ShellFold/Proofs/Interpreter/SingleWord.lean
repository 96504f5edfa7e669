import ShellFold.Interpreter.Probe

/-!
# Words behind an assignment

A shell reads the source of a word along what is open in it: quotations, and expansions in braces
and parentheses, each of which begins its own quoting and is ended by its own kind of bracket
(`Text.Place`). A text is one word if everything in it is closed at its end and each character that
would separate words stands in a quotation or an expansion (`Text.IsWord`). The check of a probe
remembers one quotation and one number of open brackets, of whatever kind, and does not look at
what is open at the end. As long as no character makes it lose track of the reading
(`Place.misleads`), it refuses a text exactly for a character that separates words
(`Probe.isTokenFrom_eq`), and what it admits is a word exactly if it is complete
(`isWord_iff_of_not_misleading`).
-/

set_option autoImplicit false

namespace ShellFold

namespace Text

/-! ## Reading the source of a word -/

/-- The brackets of an expansion. -/
inductive Bracket
  | brace
  | parenthesis
  deriving DecidableEq, Repr

/-- The character that ends an expansion in brackets. -/
def Bracket.closing : Bracket → Char
  | brace => '}'
  | parenthesis => ')'

/-- What the character in front means for the next one. -/
inductive Lexical
  | plain
  /-- A dollar sign, which begins an expansion in front of a bracket. -/
  | dollar
  /-- A backslash, which takes the meaning from the next character. -/
  | escaped
  /-- Within single quotes, where nothing but their end has a meaning. -/
  | single
  deriving DecidableEq, Repr

/-- Where a reader of shell source stands. -/
structure Place where
  /-- The brackets that are open, innermost first, each with whether it stands in double quotes. -/
  brackets : List (Bracket × Bool) := []
  /-- Within double quotes that have been opened in the innermost bracket. -/
  quoted : Bool := false
  lexical : Lexical := .plain
  deriving DecidableEq, Repr

namespace Place

def beginning : Place := {}

/-- A bracket begins a quoting of its own. -/
def enter (place : Place) (bracket : Bracket) : Place :=
  { brackets := (bracket, place.quoted) :: place.brackets }

/-- The place behind a character that no dollar sign, backslash or single quote stands in front
of. -/
def plainStep (place : Place) (c : Char) : Place :=
  if c = '\\' then { place with lexical := .escaped }
  else if c = '$' then { place with lexical := .dollar }
  else if c = '"' then { place with quoted := !place.quoted, lexical := .plain }
  else if place.quoted then { place with lexical := .plain }
  else if c = '\'' then { place with lexical := .single }
  else
    match place.brackets with
    | (bracket, quoted) :: brackets =>
      if c = bracket.closing then { brackets, quoted }
      else if c = '(' ∧ bracket = .parenthesis then place.enter .parenthesis
      else { place with lexical := .plain }
    | [] => { place with lexical := .plain }

/-- The place behind a character. -/
def step (place : Place) (c : Char) : Place :=
  match place.lexical with
  | .escaped => { place with lexical := .plain }
  | .single => if c = '\'' then { place with lexical := .plain } else place
  | .dollar =>
    if c = '{' then place.enter .brace
    else if c = '(' then place.enter .parenthesis
    else place.plainStep c
  | .plain => place.plainStep c

/-- Everything that has been opened is closed, and no backslash waits for a character. -/
def isComplete (place : Place) : Bool :=
  place.brackets = [] && !place.quoted && (place.lexical = .plain || place.lexical = .dollar)

/-- The character would separate words: nothing is open around it, and it is not the bracket of an
expansion. -/
def exposes (place : Place) (c : Char) : Bool :=
  place.isComplete && Probe.endsToken c && !(place.lexical = .dollar && c = '(')

/-- An odd number of double quotes is open, in all brackets together. -/
def oddlyQuoted (place : Place) : Bool :=
  place.quoted ^^ place.brackets.foldr (fun bracket odd => bracket.2 ^^ odd) false

/-- The character has a meaning that one quotation and one number of brackets do not tell: a
bracket in an expansion that neither begins nor ends one, or a single quote where double quotes of
more than one bracket are open. -/
def misleads (place : Place) (c : Char) : Bool :=
  (place.lexical = .plain || place.lexical = .dollar) &&
    ((c ∈ ['{', '(', '}', ')'] && place.brackets != [] &&
        (place.step c).brackets = place.brackets) ||
      (c = '\'' && place.quoted != place.oddlyQuoted))

end Place

/-- Whether `p` holds of every character of a text, where it is read. -/
def allFrom (p : Place → Char → Bool) : Place → Text → Bool
  | _, [] => true
  | place, c :: rest => p place c && allFrom p (place.step c) rest

/-- At the end of the text all quotations and expansions are closed, and no backslash is left. -/
def IsComplete (s : Text) : Prop := (s.foldl Place.step .beginning).isComplete = true

/-- The text is one complete word of a shell. -/
def IsWord (s : Text) : Prop :=
  s.IsComplete ∧ allFrom (fun place c => !place.exposes c) .beginning s = true

/-- No character of the text misleads a reader with one quotation and one number of brackets. -/
def IsPlainlyNested (s : Text) : Prop :=
  allFrom (fun place c => !place.misleads c) .beginning s = true

instance (s : Text) : Decidable s.IsComplete := inferInstanceAs (Decidable (_ = true))

instance (s : Text) : Decidable s.IsWord := inferInstanceAs (Decidable (_ ∧ _))

instance (s : Text) : Decidable s.IsPlainlyNested := inferInstanceAs (Decidable (_ = true))

/-! ## Following the reading with one quotation and one number -/

namespace Place

variable {place : Place} {c : Char}

/-- The one quotation that a reader without a memory for brackets sees. -/
def quotation (place : Place) : Option Char :=
  if place.lexical = .single then some '\''
  else if place.oddlyQuoted then some '"' else none

@[simp] theorem oddlyQuoted_lexical (place : Place) (lexical : Lexical) :
    { place with lexical }.oddlyQuoted = place.oddlyQuoted := rfl

@[simp] theorem plainStep_lexical (place : Place) (lexical : Lexical) (c : Char) :
    { place with lexical }.plainStep c = place.plainStep c := rfl

@[simp] theorem oddlyQuoted_enter (place : Place) (bracket : Bracket) :
    (place.enter bracket).oddlyQuoted = place.oddlyQuoted := by
  simp [oddlyQuoted, enter]

theorem step_plain (hplain : place.lexical = .plain) (c : Char) :
    place.step c = place.plainStep c := by
  rw [step, hplain]

theorem step_backslash (hplain : place.lexical = .plain) :
    place.step '\\' = { place with lexical := .escaped } := by
  rw [step_plain hplain]
  rfl

theorem step_dollarSign (hplain : place.lexical = .plain) :
    place.step '$' = { place with lexical := .dollar } := by
  rw [step_plain hplain]
  rfl

/-- A dollar sign means nothing in front of a character that is no bracket. -/
theorem step_behind_dollar (place : Place) (hbrace : c ≠ '{') (hparenthesis : c ≠ '(') :
    { place with lexical := .dollar }.step c = { place with lexical := .plain }.step c := by
  simp only [step, if_neg hbrace, if_neg hparenthesis, plainStep_lexical]

/-- Outside brackets, one quotation tells all there is to tell. -/
theorem oddlyQuoted_of_nil (h : place.brackets = []) : place.oddlyQuoted = place.quoted := by
  simp [oddlyQuoted, h]

section Plain

variable (hplain : place.lexical = .plain) (h : place.misleads c = false)
include hplain h

/-- A bracket in an expansion that does not mislead begins or ends one. -/
theorem brackets_plainStep_ne (hc : c ∈ ['{', '(', '}', ')']) (hopen : place.brackets ≠ []) :
    (place.plainStep c).brackets ≠ place.brackets := by
  intro heq
  have hmisleads : place.misleads c = true := by
    simp only [misleads, hplain, step_plain hplain, heq, hc, bne_iff_ne.2 hopen, decide_true,
      Bool.true_or, Bool.and_self]
  exact Bool.false_ne_true (h.symm.trans hmisleads)

theorem plainStep_opening (hc : c = '{' ∨ c = '(') (hopen : place.brackets ≠ []) :
    place.plainStep c = place.enter .parenthesis := by
  have hne := brackets_plainStep_ne hplain h (by rcases hc with rfl | rfl <;> decide) hopen
  obtain ⟨brackets, quoted, lexical⟩ := place
  rcases brackets with _ | ⟨⟨bracket, outer⟩, brackets⟩
  · exact absurd rfl hopen
  · cases quoted <;> cases bracket <;> rcases hc with rfl | rfl <;>
      simp [plainStep, Bracket.closing] at hne ⊢

theorem plainStep_closing (hc : c = '}' ∨ c = ')') (hopen : place.brackets ≠ []) :
    place.quoted = false ∧ ∃ bracket quoted brackets,
      place.brackets = (bracket, quoted) :: brackets ∧
        place.plainStep c = { brackets, quoted } := by
  have hne := brackets_plainStep_ne hplain h (by rcases hc with rfl | rfl <;> decide) hopen
  obtain ⟨brackets, quoted, lexical⟩ := place
  rcases brackets with _ | ⟨⟨bracket, outer⟩, brackets⟩
  · exact absurd rfl hopen
  · have hends : quoted = false ∧ c = bracket.closing := by
      cases quoted <;> cases bracket <;> rcases hc with rfl | rfl <;>
        simp [plainStep, Bracket.closing] at hne ⊢
    obtain ⟨rfl, rfl⟩ := hends
    refine ⟨rfl, bracket, outer, brackets, rfl, ?_⟩
    cases bracket <;> rfl

/-- A single quote that does not mislead is read as it would be without brackets. -/
theorem quoted_of_not_misleads (hc : c = '\'') : place.quoted = place.oddlyQuoted := by
  simpa [misleads, hplain, hc] using h

end Plain

/-- What is neither a quote nor, in an expansion, a bracket, changes nothing. -/
theorem plainStep_other (hplain : place.lexical = .plain) (hc : c ∉ ['\\', '$', '"'])
    (hbracket : c ∈ ['{', '(', '}', ')'] → place.brackets = [])
    (hquote : c = '\'' → place.quoted = true) : place.plainStep c = place := by
  obtain ⟨brackets, quoted, lexical⟩ := place
  cases hplain
  simp only [List.mem_cons, List.not_mem_nil, or_false, not_or] at hc
  rw [plainStep, if_neg hc.1, if_neg hc.2.1, if_neg hc.2.2]
  split
  · rfl
  · next hquoted =>
    rw [if_neg (mt hquote hquoted)]
    rcases brackets with _ | ⟨⟨bracket, outer⟩, brackets⟩
    · rfl
    · have hfree : c ∉ ['{', '(', '}', ')'] := fun hmem => List.cons_ne_nil _ _ (hbracket hmem)
      have hclosing : c ≠ bracket.closing := by
        rintro rfl
        cases bracket <;> exact hfree (by decide)
      have hparenthesis : c ≠ '(' := by
        rintro rfl
        exact hfree (by decide)
      exact (if_neg hclosing).trans (if_neg fun hopens => hparenthesis hopens.1)

/-- The check of a probe is told by its one quotation and its number of brackets where the reader
of a shell stands. -/
structure FollowedBy (place : Place) (quotation : Option Char) (depth : Nat) : Prop where
  lexical : place.lexical = .plain ∨ place.lexical = .single ∧ place.oddlyQuoted = false
  quotation : quotation = place.quotation
  depth : depth = place.brackets.length

namespace FollowedBy

variable {quotation : Option Char} {depth : Nat}

theorem beginning : Place.beginning.FollowedBy none 0 := ⟨.inl rfl, rfl, rfl⟩

/-- Outside single quotes. -/
theorem of_plain (hplain : place.lexical = .plain) :
    place.FollowedBy (if place.oddlyQuoted then some '"' else none) place.brackets.length :=
  ⟨.inl hplain, by rw [Place.quotation, hplain]; rfl, rfl⟩

section Single

variable (h : place.FollowedBy (some '\'') depth)
include h

theorem single_of_quotation : place.lexical = .single ∧ place.oddlyQuoted = false := by
  refine h.lexical.resolve_left fun hplain => ?_
  have hquotation := h.quotation
  rw [Place.quotation, hplain, if_neg (by decide)] at hquotation
  split at hquotation <;> cases hquotation

theorem step_single (c : Char) :
    (place.step c).FollowedBy (if c = '\'' then none else some '\'') depth := by
  obtain ⟨hsingle, hodd⟩ := h.single_of_quotation
  rw [step, hsingle]
  dsimp only
  split
  · refine ⟨.inl rfl, ?_, h.depth⟩
    rw [Place.quotation, if_neg (by rintro ⟨⟩), oddlyQuoted_lexical, hodd]
    rfl
  · exact h

end Single

section Plain

variable (h : place.FollowedBy quotation depth) (hquotation : quotation ≠ some '\'')
include h hquotation

theorem plain_of_quotation : place.lexical = .plain := by
  refine h.lexical.resolve_right fun hsingle => hquotation ?_
  rw [h.quotation, Place.quotation, if_pos hsingle.1]

theorem quotation_eq : quotation = if place.oddlyQuoted then some '"' else none := by
  rw [h.quotation, Place.quotation, h.plain_of_quotation hquotation]
  rfl

theorem step_escaped (c : Char) : ((place.step '\\').step c).FollowedBy quotation depth := by
  have hplain := h.plain_of_quotation hquotation
  have hstep : (place.step '\\').step c = { place with lexical := .plain } := by
    rw [step_backslash hplain]
    rfl
  rw [hstep, h.quotation_eq hquotation, h.depth]
  exact of_plain rfl

theorem step_double :
    (place.step '"').FollowedBy (if quotation.isSome then none else some '"') depth := by
  have hplain := h.plain_of_quotation hquotation
  have hstep : place.step '"' = { place with quoted := !place.quoted, lexical := .plain } := by
    rw [step_plain hplain]
    rfl
  have hodd : (place.step '"').oddlyQuoted = !place.oddlyQuoted := by
    rw [hstep, oddlyQuoted, oddlyQuoted, Bool.not_xor]
  have hbrackets : (place.step '"').brackets = place.brackets := by rw [hstep]
  rw [h.quotation_eq hquotation, h.depth, ← hbrackets]
  have hfollowed := @of_plain (place.step '"') (by rw [hstep])
  rw [hodd] at hfollowed
  cases hplace : place.oddlyQuoted <;> rwa [hplace] at hfollowed

theorem step_dollar_bracket (hc : c = '{' ∨ c = '(') :
    ((place.step '$').step c).FollowedBy quotation (depth + 1) := by
  have hplain := h.plain_of_quotation hquotation
  have hstep : ∃ bracket, (place.step '$').step c = place.enter bracket := by
    rw [step_dollarSign hplain]
    rcases hc with rfl | rfl
    · exact ⟨.brace, rfl⟩
    · exact ⟨.parenthesis, rfl⟩
  obtain ⟨bracket, hstep⟩ := hstep
  rw [hstep, h.quotation_eq hquotation, h.depth, ← oddlyQuoted_enter place bracket]
  exact of_plain rfl

variable (hmisleads : place.misleads c = false)
include hmisleads

/-- Where no quotation is open, a single quote opens one. -/
theorem step_quote (hc : c = '\'') (hnone : quotation = none) :
    (place.step c).FollowedBy (some '\'') depth := by
  have hplain := h.plain_of_quotation hquotation
  have hodd : place.oddlyQuoted = false := by
    have hquotation := h.quotation_eq hquotation
    rw [hnone] at hquotation
    cases hplace : place.oddlyQuoted
    · rfl
    · rw [hplace] at hquotation
      cases hquotation
  have hquoted : place.quoted = false := (quoted_of_not_misleads hplain hmisleads hc).trans hodd
  have hstep : place.step c = { place with lexical := .single } := by
    rw [step_plain hplain, plainStep, hquoted, hc]
    rfl
  rw [hstep]
  exact ⟨.inr ⟨rfl, hodd⟩, rfl, h.depth⟩

theorem step_opening (hc : c = '{' ∨ c = '(') (hdepth : 0 < depth) :
    (place.step c).FollowedBy quotation (depth + 1) := by
  have hplain := h.plain_of_quotation hquotation
  have hopen : place.brackets ≠ [] := List.ne_nil_of_length_pos (h.depth ▸ hdepth)
  rw [step_plain hplain, plainStep_opening hplain hmisleads hc hopen, h.quotation_eq hquotation,
    h.depth, ← oddlyQuoted_enter place .parenthesis]
  exact of_plain rfl

theorem step_closing (hc : c = '}' ∨ c = ')') (hdepth : 0 < depth) :
    (place.step c).FollowedBy quotation (depth - 1) := by
  have hplain := h.plain_of_quotation hquotation
  have hopen : place.brackets ≠ [] := List.ne_nil_of_length_pos (h.depth ▸ hdepth)
  obtain ⟨hquoted, bracket, quoted, brackets, hbrackets, hstep⟩ :=
    plainStep_closing hplain hmisleads hc hopen
  have hodd : place.oddlyQuoted = ({ brackets, quoted } : Place).oddlyQuoted := by
    rw [oddlyQuoted, hquoted, hbrackets, List.foldr_cons, Bool.false_xor]
    rfl
  rw [step_plain hplain, hstep, h.quotation_eq hquotation, h.depth, hbrackets, hodd]
  exact of_plain rfl

/-- What is left for the check to look at changes nothing. -/
theorem step_other (hc : c ∉ ['\\', '$', '"']) (hsingle : ¬(quotation = none ∧ c = '\''))
    (hopening : ¬((c = '{' ∨ c = '(') ∧ 0 < depth))
    (hclosing : ¬((c = '}' ∨ c = ')') ∧ 0 < depth)) : place.step c = place := by
  have hplain := h.plain_of_quotation hquotation
  rw [step_plain hplain]
  refine plainStep_other hplain hc (fun hbracket => ?_) fun hquote => ?_
  · refine Decidable.byContradiction fun hopen => ?_
    have hdepth : 0 < depth := h.depth ▸ List.length_pos_iff.2 hopen
    simp only [List.mem_cons, List.not_mem_nil, or_false] at hbracket
    rcases hbracket with hc | hc | hc | hc
    · exact hopening ⟨.inl hc, hdepth⟩
    · exact hopening ⟨.inr hc, hdepth⟩
    · exact hclosing ⟨.inl hc, hdepth⟩
    · exact hclosing ⟨.inr hc, hdepth⟩
  · rw [quoted_of_not_misleads hplain hmisleads hquote]
    refine Decidable.byContradiction fun hodd => hsingle ⟨?_, hquote⟩
    rw [h.quotation_eq hquotation, if_neg hodd]

end Plain

end FollowedBy

end Place

/-! ## What the check refuses -/

namespace Place

variable {place : Place} {c : Char}

theorem not_isComplete_of_lexical (h : place.lexical = .single ∨ place.lexical = .escaped) :
    place.isComplete = false := by
  rcases h with h | h <;> rw [isComplete, h] <;> exact Bool.and_false _

theorem exposes_of_not_isComplete (h : place.isComplete = false) : place.exposes c = false := by
  rw [exposes, h]
  rfl

theorem exposes_of_not_endsToken (h : Probe.endsToken c = false) : place.exposes c = false := by
  rw [exposes, h, Bool.and_false]
  rfl

/-- Neither the dollar sign in front of a bracket nor the bracket is exposed. -/
theorem exposes_dollar (hc : c = '{' ∨ c = '(') :
    { place with lexical := .dollar }.exposes c = false := by
  rcases hc with rfl | rfl
  · exact exposes_of_not_endsToken (by decide)
  · exact Bool.and_false _

/-- The check knows what is exposed, as long as it follows the reading. -/
theorem FollowedBy.exposes_iff {quotation : Option Char} {depth : Nat}
    (h : place.FollowedBy quotation depth) :
    place.exposes c = true ↔ quotation = none ∧ depth = 0 ∧ Probe.endsToken c = true := by
  obtain ⟨hplain | ⟨hsingle, -⟩, hquotation, hdepth⟩ := h
  · have hcomplete : place.isComplete = true ↔ quotation = none ∧ depth = 0 := by
      rw [hquotation, hdepth, Place.quotation, hplain, if_neg (by decide), isComplete, hplain]
      constructor
      · intro hcomplete
        simp only [Bool.and_eq_true, decide_eq_true_eq, Bool.not_eq_true'] at hcomplete
        obtain ⟨⟨hnil, hquoted⟩, -⟩ := hcomplete
        rw [oddlyQuoted_of_nil hnil, hquoted, hnil]
        exact ⟨rfl, rfl⟩
      · rintro ⟨hnone, hlength⟩
        have hnil := List.eq_nil_of_length_eq_zero hlength
        rw [oddlyQuoted_of_nil hnil] at hnone
        cases hquoted : place.quoted
        · rw [hnil]
          rfl
        · rw [hquoted] at hnone
          cases hnone
    rw [exposes, hplain, Bool.and_eq_true, Bool.and_eq_true, hcomplete, and_assoc, and_assoc]
    exact and_congr_right' (and_congr_right' (and_iff_left rfl))
  · rw [exposes_of_not_isComplete (not_isComplete_of_lexical (.inl hsingle)), hquotation,
      Place.quotation, if_pos hsingle]
    simp

theorem FollowedBy.exposes_eq_false {quotation : Option Char} {depth : Nat}
    (h : place.FollowedBy quotation depth)
    (hopen : ¬(quotation = none ∧ depth = 0 ∧ Probe.endsToken c = true)) :
    place.exposes c = false :=
  eq_false_of_ne_true (mt h.exposes_iff.1 hopen)

end Place

section

variable {place : Place} {c : Char} {rest : Text}

theorem allFrom_exposes_cons (h : place.exposes c = false) (rest : Text) :
    allFrom (fun place c => !place.exposes c) place (c :: rest) =
      allFrom (fun place c => !place.exposes c) (place.step c) rest := by
  rw [allFrom, h]
  rfl

theorem allFrom_misleads_cons
    (h : allFrom (fun place c => !place.misleads c) place (c :: rest) = true) :
    place.misleads c = false ∧
      allFrom (fun place c => !place.misleads c) (place.step c) rest = true := by
  rwa [allFrom, Bool.and_eq_true, Bool.not_eq_true'] at h

/-- In front of a character that is no bracket, a dollar sign may as well be left out. -/
theorem allFrom_dollar (hplain : place.lexical = .plain) (hbrace : c ≠ '{')
    (hparenthesis : c ≠ '(') (rest : Text) :
    allFrom (fun place c => !place.exposes c) { place with lexical := .dollar } (c :: rest) =
        allFrom (fun place c => !place.exposes c) place (c :: rest) ∧
      allFrom (fun place c => !place.misleads c) { place with lexical := .dollar } (c :: rest) =
        allFrom (fun place c => !place.misleads c) place (c :: rest) := by
  have hstep : { place with lexical := .dollar }.step c = place.step c := by
    rw [Place.step_behind_dollar place hbrace hparenthesis, ← hplain]
  have hexposes : { place with lexical := .dollar }.exposes c = place.exposes c := by
    simp [Place.exposes, Place.isComplete, hplain, hparenthesis]
  have hmisleads : { place with lexical := .dollar }.misleads c = place.misleads c := by
    simp only [Place.misleads, hstep, hplain, Place.oddlyQuoted_lexical]
    rfl
  simp only [allFrom, hstep, hexposes, hmisleads, and_self]

end

end Text

/-- As long as nothing misleads it, the check refuses exactly for what would separate words. -/
theorem Probe.isTokenFrom_eq {place : Text.Place} {quotation : Option Char} {depth : Nat}
    {s : Text} (hfollows : place.FollowedBy quotation depth)
    (hplainly : Text.allFrom (fun place c => !place.misleads c) place s = true) :
    isTokenFrom quotation depth s = Text.allFrom (fun place c => !place.exposes c) place s := by
  fun_induction isTokenFrom quotation depth s generalizing place with
  | case1 quotation depth => rfl
  | case2 depth c rest ih =>
    -- within single quotes
    rw [Text.allFrom_exposes_cons (hfollows.exposes_eq_false fun h => nomatch h.1)]
    exact ih (hfollows.step_single c) (Text.allFrom_misleads_cons hplainly).2
  | case3 | case7 =>
    -- a backslash or a dollar sign at the end
    exact (Text.allFrom_exposes_cons (Text.Place.exposes_of_not_endsToken (by decide)) []).symm
  | case4 quotation depth hsingle c rest ih =>
    -- behind a backslash
    have hescaped : (place.step '\\').lexical = .escaped := by
      rw [Text.Place.step_backslash (hfollows.plain_of_quotation hsingle)]
    rw [Text.allFrom_exposes_cons (Text.Place.exposes_of_not_endsToken (by decide)),
      Text.allFrom_exposes_cons (Text.Place.exposes_of_not_isComplete
        (Text.Place.not_isComplete_of_lexical (.inr hescaped)))]
    exact ih (hfollows.step_escaped hsingle c)
      (Text.allFrom_misleads_cons (Text.allFrom_misleads_cons hplainly).2).2
  | case5 quotation depth rest hsingle _ ih =>
    rw [Text.allFrom_exposes_cons (Text.Place.exposes_of_not_endsToken (by decide))]
    exact ih (hfollows.step_double hsingle) (Text.allFrom_misleads_cons hplainly).2
  | case6 quotation depth c rest hsingle _ _ hopens ih =>
    obtain ⟨hnone, rfl⟩ := hopens
    obtain ⟨hmisleads, hrest⟩ := Text.allFrom_misleads_cons hplainly
    rw [Text.allFrom_exposes_cons (Text.Place.exposes_of_not_endsToken (by decide))]
    exact ih (hfollows.step_quote hsingle hmisleads rfl hnone) hrest
  | case8 quotation depth hsingle c rest hbracket _ _ _ ih =>
    -- a dollar sign and a bracket behind it
    have hexposes : (place.step '$').exposes c = false := by
      rw [Text.Place.step_dollarSign (hfollows.plain_of_quotation hsingle),
        Text.Place.exposes_dollar hbracket]
    rw [Text.allFrom_exposes_cons (Text.Place.exposes_of_not_endsToken (by decide)),
      Text.allFrom_exposes_cons hexposes]
    exact ih (hfollows.step_dollar_bracket hsingle hbracket)
      (Text.allFrom_misleads_cons (Text.allFrom_misleads_cons hplainly).2).2
  | case9 quotation depth hsingle c rest hbracket _ _ _ ih =>
    -- a dollar sign that means nothing
    obtain ⟨hbrace, hparenthesis⟩ := not_or.1 hbracket
    have hplain := hfollows.plain_of_quotation hsingle
    have hdollar := Text.Place.step_dollarSign hplain
    obtain ⟨hexposed, hmisled⟩ := Text.allFrom_dollar hplain hbrace hparenthesis rest
    have hrest := (Text.allFrom_misleads_cons hplainly).2
    rw [hdollar, hmisled] at hrest
    rw [Text.allFrom_exposes_cons (Text.Place.exposes_of_not_endsToken (by decide)), hdollar,
      hexposed]
    exact ih hfollows hrest
  | case10 quotation depth c rest hsingle _ _ _ _ hopening ih =>
    obtain ⟨hmisleads, hrest⟩ := Text.allFrom_misleads_cons hplainly
    have hexposes : place.exposes c = false :=
      hfollows.exposes_eq_false fun h => Nat.ne_of_gt hopening.2 h.2.1
    rw [Text.allFrom_exposes_cons hexposes]
    exact ih (hfollows.step_opening hsingle hmisleads hopening.1 hopening.2) hrest
  | case11 quotation depth c rest hsingle _ _ _ _ _ hclosing ih =>
    obtain ⟨hmisleads, hrest⟩ := Text.allFrom_misleads_cons hplainly
    have hexposes : place.exposes c = false :=
      hfollows.exposes_eq_false fun h => Nat.ne_of_gt hclosing.2 h.2.1
    rw [Text.allFrom_exposes_cons hexposes]
    exact ih (hfollows.step_closing hsingle hmisleads hclosing.1 hclosing.2) hrest
  | case12 quotation depth c rest _ _ _ _ _ _ _ hrefused =>
    rw [Text.allFrom, hfollows.exposes_iff.2 hrefused]
    rfl
  | case13 quotation depth c rest hsingle hescape hdouble hquote hdollar hopening hclosing hkept
      ih =>
    -- anything else
    obtain ⟨hmisleads, hrest⟩ := Text.allFrom_misleads_cons hplainly
    have hstep : place.step c = place :=
      hfollows.step_other hsingle hmisleads (by simp [hescape, hdouble, hdollar]) hquote hopening
        hclosing
    rw [Text.allFrom_exposes_cons (hfollows.exposes_eq_false hkept), hstep]
    exact ih hfollows (hstep ▸ hrest)

/-- A text in which nothing misleads the check is a word of a shell exactly if the check admits it
and everything in it is closed at its end, which the check does not look at. -/
theorem Text.isWord_iff_of_not_misleading {s : Text} (h : s.IsPlainlyNested) :
    s.IsWord ↔ Probe.isSingleToken s = true ∧ s.IsComplete := by
  rw [IsWord, Probe.isSingleToken, Probe.isTokenFrom_eq Place.FollowedBy.beginning h]
  exact and_comm

/-- Blanks in quotations and in an expansion stay within a word; a quotation that is not closed is
admitted, but is no word; and an opening brace in an expansion misleads the check, so that it
admits two tokens. -/
theorem Text.isWord_iff_of_expansion :
    let word := "$\x7bx:-a b\x7d\"c d\"'e f'\\ g".toList
    let opened := "\"a b".toList
    let two := "$\x7bx-\x7b\x7d y".toList
    (IsPlainlyNested word ∧ IsWord word) ∧
      (IsPlainlyNested opened ∧ Probe.isSingleToken opened = true ∧ ¬IsWord opened) ∧
      ¬IsPlainlyNested two ∧ Probe.isSingleToken two = true ∧ ¬IsWord two := by
  intro word opened two
  have hword : IsPlainlyNested word := by decide +kernel
  have hopened : IsPlainlyNested opened := by decide +kernel
  refine ⟨⟨hword, (isWord_iff_of_not_misleading hword).2 (by decide +kernel)⟩,
    ⟨hopened, by decide +kernel, fun h => ?_⟩, by decide +kernel⟩
  have hcomplete := ((isWord_iff_of_not_misleading hopened).1 h).2
  revert hcomplete
  decide +kernel

end ShellFold
