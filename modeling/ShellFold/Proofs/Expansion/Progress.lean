import ShellFold.Proofs.Expansion.Boundary
import ShellFold.Proofs.Expansion.Bounds
import ShellFold.Proofs.Expansion.Tilde

/-!
# The expander always makes progress

Expanding a word by position agrees with reading it into pieces and evaluating them. A dollar sign
is passed up to where it is read to (`Indexed.dollar_bind`), and from there induction on the fuel
shows that both loops agree with the reader on all that is shorter than the fuel
(`Indexed.suffices_all`). So no expansion by position leaves its word or runs out of fuel
(`Indexed.expand_eq`, `Builtin.expand_progresses`).
-/

set_option autoImplicit false

namespace ShellFold

/-! ## Steps of the reader -/

/-- The place in which the nested word of a reference is read. -/
def Quoting.inner (q : Quoting) : Quoting := if q.isQuoted then .nested false else .bare

/-- Adds what a step of the reader has found to the fields. -/
def Lexeme.eval (scope : Scope) (split : Bool) (q : Quoting) :
    Lexeme → Fields → Except Failure Fields
  | .nothing, fields => .ok fields
  | .text s, fields => .ok (fields.literal s)
  | .reference ref, fields =>
    (Piece.ofReference q.isQuoted (Piece.read q.inner ref.word) ref).eval scope split fields
  | .failure e, _ => .error e

namespace Piece

variable (scope : Scope) (split : Bool) (q : Quoting) (fields : Fields)

theorem evalAll_read_end :
    evalAll scope split (read q []) fields = q.atEnd.eval scope split q fields := by
  rw [read_nil]
  rcases q with _ | _ | (_ | _) | _ <;> rfl

/-- The pieces of a word are evaluated step by step. -/
theorem evalAll_read_cons (c : Char) (rest : Text) :
    evalAll scope split (read q (c :: rest)) fields =
      (q.step c rest).lexeme.eval scope split q fields >>=
        evalAll scope split (read (q.step c rest).quoting (q.step c rest).rest) := by
  rw [read_cons]
  cases (q.step c rest).lexeme with
  | nothing => rfl
  | text s => rfl
  | failure e => rfl
  | reference ref => rfl

end Piece

namespace Indexed

/-! ## Dollar signs -/

section

variable {scope : Scope} {split : Bool} {word rest : Text} {i : Nat} {fields : Fields}
  {nested : Text → Fields → Except Stop Fields}

/-- Adds what a dollar sign begins; a nested word is left to `nested`. -/
def begun (scope : Scope) (split quoted : Bool) (nested : Text → Fields → Except Stop Fields) :
    Dollar → Fields → Except Stop Fields
  | .sign, fields => .ok (fields.literal ['$'])
  | .reference ref, fields => reference scope split quoted nested ref fields
  | .failure e, _ => fail e

/-- What is done behind a position is done with what stands there. -/
theorem bind_position {β : Type} {after : Text} (x : Except Stop Fields)
    (h : word.drop i = after) (k : Text → Fields → Except Stop β) :
    ((x >>= fun fields => pure (i, fields)) >>= fun behind => k (word.drop behind.1) behind.2) =
      x >>= k after := by
  subst h
  cases x <;> rfl

/-- A dollar sign is passed by position as it is read, whatever is done with what follows. -/
theorem dollar_bind {β : Type} (quoted : Bool) (h : word.drop i = '$' :: rest)
    (k : Text → Fields → Except Stop β) :
    (dollar scope split quoted (braces scope split quoted nested) word i fields >>=
        fun behind => k (word.drop behind.1) behind.2) =
      begun scope split quoted nested (afterDollar quoted rest).1 fields >>=
        k (afterDollar quoted rest).2 := by
  have hi := lt_length_of_drop h
  have hrest := drop_succ h
  have hnext : word[i + 1]? = rest[0]? := getElem?_of_drop h 1
  unfold dollar
  rw [hnext]
  cases rest with
  | nil =>
    show k (word.drop (i + 1)) _ = _
    rw [hrest]
    rfl
  | cons c rest =>
    have hbehind := drop_succ hrest
    have hlength := lt_length_of_drop hrest
    rw [List.getElem?_cons_zero]
    unfold afterDollar
    dsimp only
    by_cases hbrace : c = '{'
    · rw [if_pos hbrace, if_pos hbrace]
      have hclosing := closingBrace_eq word 0 (i + 2)
      rw [Nat.zero_add, hbehind] at hclosing
      rw [hclosing, ok_bind, closingBrace?]
      rcases hcut : closingBraceFrom? 0 rest with _ | ⟨body, after⟩
      · rfl
      · have hword : word.drop (i + 2) = body ++ '}' :: after :=
          hbehind.trans (eq_of_closingBraceFrom? hcut)
        have hslice := slice_of_drop hword (by omega)
        have hafter := drop_succ (drop_add_length hword)
        simp only [Option.map_some, hslice, ok_bind, braces_eq]
        cases Reference.ofBody body with
        | error e => rfl
        | ok ref =>
          exact bind_position _ hafter k
    · rw [if_neg hbrace, if_neg hbrace]
      by_cases hparen : c = '('
      · rw [if_pos hparen, if_pos hparen]
        have hsecond : word[i + 2]? = rest[0]? := getElem?_of_drop h 2
        rw [hsecond, List.head?_eq_getElem?]
        rfl
      · rw [if_neg hparen, if_neg hparen]
        by_cases hquote : (!quoted && (c = '\'' || c = '"')) = true
        · rw [if_pos hquote, if_pos hquote]
          rfl
        · rw [if_neg hquote, if_neg hquote]
          by_cases hstart : Text.isNameStart c = true
          · rw [if_pos hstart, if_pos hstart]
            have hrun := List.takeWhile_append_dropWhile (p := Text.isNameChar) (l := c :: rest)
            have hname : Text.isName ((c :: rest).takeWhile Text.isNameChar) = true := by
              rw [List.takeWhile_cons_of_pos (Text.isNameChar_of_isNameStart hstart)]
              simp [Text.isName, hstart]
            have hstop := runEnd_eq Text.isNameChar (Nat.le_of_lt hlength)
            rw [hrest] at hstop
            have hslice := slice_of_drop (hrest.trans hrun.symm) (Nat.le_of_lt hlength)
            rw [hstop, ok_bind, hslice, ok_bind, ← scope.emitValue_of_isName split quoted hname]
            exact bind_position _ (drop_add_length (hrest.trans hrun.symm)) k
          · rw [if_neg hstart, if_neg hstart]
            by_cases hspecial : (c.isDigit || isSpecialParameter c) = true
            · rw [if_pos hspecial, if_pos hspecial]
              exact bind_position _ hbehind k
            · rw [if_neg hspecial, if_neg hspecial]
              exact bind_position (.ok _) hrest k

/-- What is left behind a dollar sign by position is what is left where it is read. -/
theorem dollar_rest {quoted : Bool} {fields' : Fields} {j : Nat} (h : word.drop i = '$' :: rest)
    (hok : dollar scope split quoted (braces scope split quoted nested) word i fields =
      .ok (j, fields')) : word.drop j = (afterDollar quoted rest).2 := by
  have hpass : (dollar scope split quoted (braces scope split quoted nested) word i fields >>=
      fun behind => .ok (word.drop behind.1)) = _ := dollar_bind quoted h fun after _ => .ok after
  rw [hok, ok_bind] at hpass
  obtain ⟨_, -, hafter⟩ := bind_eq_ok.1 hpass.symm
  exact (Except.ok.inj hafter).symm

/-- A reference, whose nested word is gone on with as its pieces are evaluated. -/
theorem reference_eq {quoted : Bool} {ref : Reference} {pieces : List Piece}
    (h : ∀ fields, nested ref.word fields = ofExcept (Piece.evalAll scope split pieces fields)) :
    reference scope split quoted nested ref fields =
      ofExcept ((Piece.ofReference quoted pieces ref).eval scope split fields) := by
  cases ref with
  | value name => rfl
  | length name => rfl
  | rejected name e =>
    rw [reference, Piece.ofReference, Piece.eval, ofExcept_bind]
    rfl
  | choice which nonEmpty name word =>
    rw [Reference.word] at h
    cases which with
    | default =>
      rw [reference, Piece.ofReference, Piece.eval, ofExcept_bind]
      refine bind_congr_ok fun value _ => ?_
      split
      · rfl
      · exact h fields
    | alternative =>
      rw [reference, Piece.ofReference, Piece.eval, ofExcept_bind]
      refine bind_congr_ok fun value _ => ?_
      split
      · exact h fields
      · rfl

/-- The step over a dollar sign, by position and as it is read: what is done behind it (`next`) must
agree with what is done with the rest that is read (`k`), for what can be left of the word. -/
theorem dollar_step {β : Type} {q : Quoting} {quoted : Bool} (hq : q.isQuoted = quoted)
    (h : word.drop i = '$' :: rest)
    (hnested : ∀ word : Text, word.length ≤ rest.length → ∀ fields,
      nested word fields = ofExcept (Piece.evalAll scope split (Piece.read q.inner word) fields))
    (next : Nat → Fields → Except Stop β) (k : Text → Fields → Except Stop β)
    (hnext : ∀ j fields, i < j → next j fields = k (word.drop j) fields) :
    (dollar scope split quoted (braces scope split quoted nested) word i fields >>=
        fun behind => next behind.1 behind.2) =
      ofExcept ((q.stepDollar rest).lexeme.eval scope split q fields) >>=
        k (q.stepDollar rest).rest := by
  subst hq
  have hpass : ∀ behind : Nat × Fields,
      dollar scope split q.isQuoted (braces scope split q.isQuoted nested) word i fields =
        .ok behind → next behind.1 behind.2 = k (word.drop behind.1) behind.2 := fun behind hok =>
    hnext _ _ (dollar_bounds (lt_length_of_drop h) hok).1
  rw [bind_congr_ok hpass, dollar_bind q.isQuoted h k]
  suffices hbegun : begun scope split q.isQuoted nested (afterDollar q.isQuoted rest).1 fields =
      ofExcept ((afterDollar q.isQuoted rest).1.lexeme.eval scope split q fields) from
    congrArg (· >>= k (afterDollar q.isQuoted rest).2) hbegun
  cases hdollar : (afterDollar q.isQuoted rest).1 with
  | sign => rfl
  | failure e => rfl
  | reference ref =>
    exact reference_eq fun fields => hnested ref.word (length_word_afterDollar hdollar) fields

/-- What a backslash adds by position is what the step over it finds. -/
theorem escape_step (scope : Scope) (split : Bool) (fields : Fields) (q : Quoting)
    (h : word.drop i = '\\' :: rest) :
    (q.stepEscape rest).lexeme.eval scope split q fields =
        .ok (escape q.escapes word[i + 1]? fields) ∧
      (q.stepEscape rest).quoting = q ∧ (q.stepEscape rest).rest = word.drop (i + 2) := by
  have hnext : word[i + 1]? = rest[0]? := getElem?_of_drop h 1
  have hbehind : word.drop (i + 2) = rest.tail := by
    rw [← List.drop_one, ← drop_succ h, List.drop_drop]
  rw [hnext, hbehind]
  cases rest with
  | nil => exact ⟨rfl, rfl, rfl⟩
  | cons c rest =>
    rw [Quoting.stepEscape, List.getElem?_cons_zero, escape]
    by_cases hc : c = '\n'
    · rw [if_pos hc, if_pos hc]
      exact ⟨rfl, rfl, rfl⟩
    · rw [if_neg hc, if_neg hc]
      exact ⟨rfl, rfl, rfl⟩

/-- By position a list of parameters is recognised as it is in what follows a dollar sign. -/
theorem refersToList_eq (h : word.drop i = '$' :: rest) :
    refersToList word i = startsList rest := by
  have hnext : word[i + 1]? = rest[0]? := getElem?_of_drop h 1
  have hrest := drop_succ h
  have hi := lt_length_of_drop h
  have hlength := congrArg List.length hrest
  rw [List.length_drop] at hlength
  rw [refersToList, hnext]
  rcases rest with _ | ⟨c, _ | ⟨d, rest⟩⟩
  · rw [slice, if_neg (by simp only [List.length_nil] at hlength; omega)]
    rfl
  · rw [slice, if_neg (by simp only [List.length_singleton] at hlength; omega)]
    simp [startsList, List.isPrefixOf, Except.toOption, Bool.beq_eq_decide_eq, eq_comm]
  · have hpart : word.drop (i + 1) = [c, d] ++ rest := hrest
    have hslice := slice_of_drop hpart hi
    rw [show i + 3 = i + 1 + [c, d].length from rfl, hslice]
    simp [startsList, List.isPrefixOf, Except.toOption, Bool.beq_eq_decide_eq, eq_comm]

end

/-! ## Outside of double quotes -/

/-- The place of a word outside of double quotes. -/
def place (document : Bool) : Quoting := if document then .document else .bare

/-- The place of a word in double quotes, or of a nested word that is read as in them. -/
def placeWithin (closing sawList : Bool) : Quoting :=
  if closing then .quoted sawList else .nested sawList

section

variable (scope : Scope) (split : Bool)

/-- From a position on, `bare` does what evaluating the pieces of the rest does. -/
def BareAgrees (fuel : Nat) (document : Bool) (word : Text) (i : Nat) : Prop :=
  ∀ fields, bare scope split document fuel word i fields =
    ofExcept (Piece.evalAll scope split (Piece.read (place document) (word.drop i)) fields)

/-- What a quotation is followed by is read outside of it; a nested word ends with it. -/
def behindQuotation (closing : Bool) (word : Text) (stop : Nat) (fields : Fields) :
    Except Stop Fields :=
  if closing then ofExcept (Piece.evalAll scope split (Piece.read .bare (word.drop stop)) fields)
  else .ok fields

/-- From a position on, `quotation` does what evaluating the pieces of the rest does, up to where
the quotation ends. -/
def QuotationAgrees (fuel : Nat) (closing sawList : Bool) (word : Text) (i : Nat) : Prop :=
  ∀ fields, (quotation scope split closing fuel sawList word i fields >>= fun behind =>
      behindQuotation scope split closing word behind.1 behind.2) =
    ofExcept (Piece.evalAll scope split
      (Piece.read (placeWithin closing sawList) (word.drop i)) fields)

/-- Fuel is enough for all that is shorter than it. -/
structure Suffices (fuel : Nat) : Prop where
  bare : ∀ document word i, (word.drop i).length < fuel →
    BareAgrees scope split fuel document word i
  quotation : ∀ closing sawList word i, (word.drop i).length < fuel →
    QuotationAgrees scope split fuel closing sawList word i

variable {scope split} {fuel : Nat} (hfuel : Suffices scope split fuel)
include hfuel

/-- The nested word of an expansion by position, in a word that is or is not quoted. -/
theorem nested_eq {q : Quoting} {word : Text} (hword : word.length < fuel) (fields : Fields) :
    (if q.isQuoted then do return (← quotation scope split false fuel false word 0 fields).2
      else bare scope split false fuel word 0 fields) =
      ofExcept (Piece.evalAll scope split (Piece.read q.inner word) fields) := by
  rw [Quoting.inner]
  cases q.isQuoted with
  | false => exact hfuel.bare false word 0 hword fields
  | true => exact hfuel.quotation false false word 0 hword fields

section

variable {document : Bool} {word rest : Text} {c : Char} {i : Nat}
  (hleft : ∀ j, i < j → (word.drop j).length < fuel)
include hleft

theorem bareAgrees_single (hs : word.drop i = '\'' :: rest) :
    BareAgrees scope split (fuel + 1) false word i := by
  intro fields
  have hi := lt_length_of_drop hs
  have hrest := drop_succ hs
  have hstep : Quoting.bare.step '\'' rest = Quoting.stepSingle rest := rfl
  rw [bare, if_pos hi, charAt_of_drop hs, ok_bind, if_pos (by decide), find_mark '\'' hrest,
    ok_bind, hs, place, if_neg (by decide), Piece.evalAll_read_cons, ofExcept_bind, hstep]
  unfold Quoting.stepSingle
  rcases hcut : Text.splitOnce? '\'' rest with _ | ⟨literal, after⟩
  · rfl
  · have hword := hrest.trans (Text.eq_of_splitOnce? hcut).1
    have hafter := drop_succ (drop_add_length hword)
    have hbare := hfuel.bare false word _ (hleft (i + 1 + literal.length + 1) (by omega))
    rw [Option.map_some]
    dsimp only
    rw [slice_of_drop hword hi, ok_bind, hbare, hafter]
    rfl

theorem bareAgrees_double (hs : word.drop i = '"' :: rest) :
    BareAgrees scope split (fuel + 1) false word i := by
  intro fields
  have hquotation := hfuel.quotation true false word (i + 1) (hleft _ (by omega)) fields
  rw [drop_succ hs] at hquotation
  have hread : Piece.read (place false) ('"' :: rest) = Piece.read (placeWithin true false) rest :=
    Piece.read_nothing rfl
  rw [bare, if_pos (lt_length_of_drop hs), charAt_of_drop hs, ok_bind, if_neg (by decide),
    if_pos (by decide), hs, hread, ← hquotation]
  refine bind_congr_ok fun ⟨stop, fields⟩ hstop => ?_
  have hbounds := quotation_bounds hstop
  exact hfuel.bare false word stop (hleft stop (by omega)) fields

theorem bareAgrees_escape (hs : word.drop i = '\\' :: rest) :
    BareAgrees scope split (fuel + 1) document word i := by
  intro fields
  obtain ⟨hlexeme, hplace, hbehind⟩ := escape_step scope split fields (place document) hs
  have hstep : (place document).step '\\' rest = (place document).stepEscape rest := if_pos rfl
  have hlost : (fun c => !document || c = '$' || c = '\x60' || c = '\\') =
      (place document).escapes := by
    cases document <;> rfl
  rw [bare, if_pos (lt_length_of_drop hs), charAt_of_drop hs, ok_bind, if_neg (by simp),
    if_neg (by simp), if_pos rfl, hlost, hs, Piece.evalAll_read_cons, ofExcept_bind, hstep,
    hlexeme, hplace, hbehind]
  exact hfuel.bare document word (i + 2) (hleft _ (by omega)) _

theorem bareAgrees_dollar (hs : word.drop i = '$' :: rest) :
    BareAgrees scope split (fuel + 1) document word i := by
  intro fields
  have hquoted : (place document).isQuoted = document := by cases document <;> rfl
  have hplace : ((place document).stepDollar rest).quoting = place document := by
    cases document <;> rfl
  have hstep : (place document).step '$' rest = (place document).stepDollar rest :=
    (if_neg (by decide)).trans (if_pos rfl)
  have hnested : ∀ word : Text, word.length ≤ rest.length → ∀ fields,
      (if document then do return (← quotation scope split false fuel false word 0 fields).2
        else bare scope split false fuel word 0 fields) =
        ofExcept (Piece.evalAll scope split (Piece.read (place document).inner word) fields) := by
    intro word hword fields
    have hrest := hleft (i + 1) (by omega)
    rw [drop_succ hs] at hrest
    rw [← nested_eq hfuel (Nat.lt_of_le_of_lt hword hrest) fields, hquoted]
  rw [bare, if_pos (lt_length_of_drop hs), charAt_of_drop hs, ok_bind, if_neg (by simp),
    if_neg (by simp), if_neg (by decide), if_pos rfl, hs, Piece.evalAll_read_cons, ofExcept_bind,
    hstep, hplace]
  exact dollar_step hquoted hs hnested (bare scope split document fuel word)
    (fun after fields =>
      ofExcept (Piece.evalAll scope split (Piece.read (place document) after) fields))
    fun j fields hj => hfuel.bare document word j (hleft j hj) fields

omit hleft in
/-- Fuel for what is shorter is enough for one step more outside of double quotes. -/
theorem bareAgrees_succ (hword : (word.drop i).length < fuel + 1) :
    BareAgrees scope split (fuel + 1) document word i := by
  cases hs : word.drop i with
  | nil =>
    intro fields
    have hi := List.drop_eq_nil_iff.1 hs
    rw [bare, if_neg (by omega), hs, Piece.evalAll_read_end]
    cases document <;> rfl
  | cons c rest =>
    have hi := lt_length_of_drop hs
    have hleft : ∀ j, i < j → (word.drop j).length < fuel := fun j => length_drop_lt hs hword
    by_cases hsingle : c = '\'' ∧ ¬document = true
    · obtain ⟨rfl, hdocument⟩ := hsingle
      rw [Bool.not_eq_true] at hdocument
      exact hdocument ▸ bareAgrees_single hfuel hleft hs
    by_cases hdouble : c = '"' ∧ ¬document = true
    · obtain ⟨rfl, hdocument⟩ := hdouble
      rw [Bool.not_eq_true] at hdocument
      exact hdocument ▸ bareAgrees_double hfuel hleft hs
    by_cases hescape : c = '\\'
    · subst hescape
      exact bareAgrees_escape hfuel hleft hs
    by_cases hdollar : c = '$'
    · subst hdollar
      exact bareAgrees_dollar hfuel hleft hs
    intro fields
    rw [bare, if_pos hi, charAt_of_drop hs, ok_bind, if_neg hsingle, if_neg hdouble,
      if_neg hescape, if_neg hdollar, hs, Piece.evalAll_read_cons, ofExcept_bind]
    by_cases hbacktick : c = '\x60'
    · subst hbacktick
      rw [if_pos rfl]
      rfl
    by_cases hbracket : c = '[' ∧ ¬document = true
    · obtain ⟨rfl, hdocument⟩ := hbracket
      rw [Bool.not_eq_true] at hdocument
      subst hdocument
      rw [if_neg (by decide), if_pos (by decide)]
      rfl
    -- What is left has no meaning outside of double quotes.
    have hstep : (place document).step c rest = ⟨.text [c], place document, rest⟩ := by
      cases document with
      | false => simp_all [Quoting.step, place]
      | true =>
        by_cases hquote : c = '"' <;>
          simp_all [Quoting.step, Quoting.stepQuote, place]
    rw [if_neg hbacktick, if_neg hbracket, hstep, ← drop_succ hs]
    exact hfuel.bare document word (i + 1) (hleft _ (by omega)) _

end

/-! ## In double quotes -/

section

variable {closing sawList : Bool} {word rest : Text} {c : Char} {i : Nat}
  (hleft : ∀ j, i < j → (word.drop j).length < fuel)

omit hfuel in
/-- The quote that ends a quotation. -/
theorem quotationAgrees_quote (hs : word.drop i = '"' :: rest) :
    QuotationAgrees scope split (fuel + 1) true sawList word i := by
  intro fields
  have hc : word[i]? = some '"' := getElem?_of_drop hs 0
  have hstep : (placeWithin true sawList).step '"' rest =
      ⟨Quoting.closing sawList, .bare, rest⟩ := rfl
  rw [quotation, hc, hs, Piece.evalAll_read_cons, ofExcept_bind, hstep, ← drop_succ hs]
  cases sawList <;> rfl

include hleft

theorem quotationAgrees_escape (hs : word.drop i = '\\' :: rest) :
    QuotationAgrees scope split (fuel + 1) closing sawList word i := by
  intro fields
  have hc : word[i]? = some '\\' := getElem?_of_drop hs 0
  let q := placeWithin closing sawList
  obtain ⟨hlexeme, hplace, hbehind⟩ := escape_step scope split fields q hs
  have hstep : q.step '\\' rest = q.stepEscape rest := if_pos rfl
  have hlost : Text.isEscapable = q.escapes := by cases closing <;> rfl
  rw [quotation, hc]
  dsimp only
  rw [if_neg (by simp), if_pos rfl, hlost, hs, Piece.evalAll_read_cons, ofExcept_bind, hstep,
    hlexeme, hplace, hbehind]
  exact hfuel.quotation closing sawList word (i + 2) (hleft _ (by omega)) _

theorem quotationAgrees_dollar (hs : word.drop i = '$' :: rest) :
    QuotationAgrees scope split (fuel + 1) closing sawList word i := by
  intro fields
  have hc : word[i]? = some '$' := getElem?_of_drop hs 0
  let q := placeWithin closing sawList
  let after := placeWithin closing (sawList || refersToList word i)
  have hquoted : q.isQuoted = true := by cases closing <;> rfl
  have hplace : (q.stepDollar rest).quoting = after := by
    show q.noteList rest = placeWithin closing (sawList || refersToList word i)
    rw [refersToList_eq hs]
    cases closing <;> rfl
  have hstep : q.step '$' rest = q.stepDollar rest := (if_neg (by decide)).trans (if_pos rfl)
  have hnested : ∀ word : Text, word.length ≤ rest.length → ∀ fields,
      (do return (← quotation scope split false fuel false word 0 fields).2) =
        ofExcept (Piece.evalAll scope split (Piece.read q.inner word) fields) := by
    intro word hword fields
    have hrest := hleft (i + 1) (by omega)
    rw [drop_succ hs] at hrest
    rw [← nested_eq hfuel (Nat.lt_of_le_of_lt hword hrest) fields, hquoted]
    rfl
  rw [quotation, hc]
  dsimp only
  rw [if_neg (by simp), if_neg (by decide), if_pos rfl, hs, Piece.evalAll_read_cons, ofExcept_bind,
    hstep, hplace, bind_assoc]
  exact dollar_step hquoted hs hnested
    (fun j fields => quotation scope split closing fuel (sawList || refersToList word i) word j
      fields >>= fun behind => behindQuotation scope split closing word behind.1 behind.2)
    (fun rest fields => ofExcept (Piece.evalAll scope split (Piece.read after rest) fields))
    fun j fields hj => hfuel.quotation closing _ word j (hleft j hj) fields

omit hleft in
/-- Fuel for what is shorter is enough for one step more in double quotes. -/
theorem quotationAgrees_succ (hword : (word.drop i).length < fuel + 1) :
    QuotationAgrees scope split (fuel + 1) closing sawList word i := by
  cases hs : word.drop i with
  | nil =>
    intro fields
    have hi : word[i]? = none := List.getElem?_eq_none_iff.2 (List.drop_eq_nil_iff.1 hs)
    rw [quotation, hi, hs, Piece.evalAll_read_end]
    cases closing <;> cases sawList <;> rfl
  | cons c rest =>
    have hc : word[i]? = some c := getElem?_of_drop hs 0
    have hleft : ∀ j, i < j → (word.drop j).length < fuel := fun j => length_drop_lt hs hword
    by_cases hquote : c = '"' ∧ closing = true
    · obtain ⟨rfl, rfl⟩ := hquote
      exact quotationAgrees_quote hs
    by_cases hescape : c = '\\'
    · subst hescape
      exact quotationAgrees_escape hfuel hleft hs
    by_cases hdollar : c = '$'
    · subst hdollar
      exact quotationAgrees_dollar hfuel hleft hs
    intro fields
    rw [quotation, hc]
    dsimp only
    rw [if_neg hquote, if_neg hescape, if_neg hdollar, hs, Piece.evalAll_read_cons, ofExcept_bind]
    by_cases hbacktick : c = '\x60'
    · subst hbacktick
      rw [if_pos rfl]
      cases closing <;> rfl
    -- What is left has no meaning in double quotes; a nested word is not ended by a quote.
    have hstep : (placeWithin closing sawList).step c rest =
        ⟨.text [c], placeWithin closing sawList, rest⟩ := by
      cases closing with
      | true => simp_all [Quoting.step, placeWithin]
      | false =>
        by_cases hdouble : c = '"' <;>
          simp_all [Quoting.step, Quoting.stepQuote, placeWithin]
    rw [if_neg hbacktick, hstep, ← drop_succ hs]
    exact hfuel.quotation closing sawList word (i + 1) (hleft _ (by omega)) _

end

omit hfuel in
/-- A unit of fuel for each character and one more is enough. -/
theorem suffices_all (scope : Scope) (split : Bool) (fuel : Nat) : Suffices scope split fuel := by
  induction fuel with
  | zero => exact ⟨fun _ _ _ h => absurd h (Nat.not_lt_zero _),
      fun _ _ _ _ h => absurd h (Nat.not_lt_zero _)⟩
  | succ fuel ih => exact ⟨fun _ _ _ h => bareAgrees_succ ih h,
      fun _ _ _ _ h => quotationAgrees_succ ih h⟩

end

/-! ## Words -/

/-- A tilde at the front of a word is passed by position as it is read. -/
theorem tilde_eq (scope : Scope) (split : Bool) (word : Text) (fields : Fields) :
    tilde scope word fields =
      if (Piece.tildeWord word).any Piece.hidesTilde then .ok (0, fields)
      else do
        let fields ← ofExcept ((Piece.ofTilde (Piece.tildeWord word)).eval scope split fields)
        return ((Piece.tildeWord word).length, fields) := by
  have hstop := runEnd_eq (· ≠ '/') (Nat.zero_le word.length)
  have hrun : word.drop 0 = Piece.tildeWord word ++ word.dropWhile (· ≠ '/') :=
    List.takeWhile_append_dropWhile.symm
  have hslice := slice_of_drop hrun (Nat.zero_le _)
  have hlength : 0 + (Piece.tildeWord word).length = (Piece.tildeWord word).length := Nat.zero_add _
  rw [tilde, hstop, ok_bind, List.drop_zero, ← Piece.tildeWord, hslice, ok_bind, hlength]
  split
  · rfl
  · unfold Piece.ofTilde
    split
    · rw [Piece.eval]
      cases scope.value? "HOME".toList <;> rfl
    · split <;> rfl

/-- The fields of a word from a position on are those of the rest as it is read. -/
theorem bare_rest {fuel start : Nat} (scope : Scope) (split document : Bool) {word : Text}
    (hfuel : word.length < fuel) (hstart : start ≤ word.length) (fields : Fields) :
    (do
      let rest ← slice word start word.length
      let fields ← bare scope split document fuel rest 0 fields
      return fields.finish split) =
    ofExcept (do
      let fields ←
        Piece.evalAll scope split (Piece.read (place document) (word.drop start)) fields
      return fields.finish split) := by
  have hbare := (suffices_all scope split fuel).bare document (word.drop start) 0
    (by rw [List.drop_zero, List.length_drop]; omega) fields
  rw [List.drop_zero] at hbare
  rw [slice_all word hstart, ok_bind, hbare, ofExcept_bind]
  rfl

/-- **Expanding by position is expanding.** With fuel for the characters of a word and one more, an
expansion by position gives what the word expands to, or fails as that does. -/
theorem expand_eq {fuel : Nat} (scope : Scope) (mode : Mode) {word : Text}
    (hfuel : word.length < fuel) :
    expand fuel scope mode word = ofExcept (scope.expand mode word) := by
  rw [expand, Scope.expand]
  by_cases hmode : mode = .heredoc
  · subst hmode
    rw [if_neg (fun h => h.1 rfl), ok_bind]
    exact bare_rest scope _ true hfuel (Nat.zero_le _) {}
  · have hdocument : decide (mode = .heredoc) = false := decide_eq_false hmode
    rw [hdocument]
    by_cases hhead : word[0]? = some '~'
    · rw [if_pos ⟨hmode, hhead⟩, tilde_eq scope mode.splits]
      by_cases hhidden : (Piece.tildeWord word).any Piece.hidesTilde = true
      · have hnot : ¬Text.HasTilde word := fun h => by
          rw [h.2] at hhidden
          cases hhidden
        rw [if_pos hhidden, ok_bind, Piece.ofText_of_not_hasTilde hmode hnot]
        exact bare_rest scope _ false hfuel (Nat.zero_le _) {}
      · have hhas : Text.HasTilde word :=
          ⟨by rw [List.head?_eq_getElem?, hhead], by simpa using hhidden⟩
        have hrun : word.drop 0 = Piece.tildeWord word ++ word.dropWhile (· ≠ '/') :=
          List.takeWhile_append_dropWhile.symm
        have hrest := drop_add_length hrun
        have hlength : (Piece.tildeWord word).length ≤ word.length :=
          (List.takeWhile_prefix _).length_le
        rw [Nat.zero_add] at hrest
        rw [if_neg hhidden, Piece.ofText_of_hasTilde hmode hhas, Piece.evalAll, ← hrest]
        rcases (Piece.ofTilde (Piece.tildeWord word)).eval scope mode.splits {} with e | fields
        · rfl
        · exact bare_rest scope _ false hfuel hlength fields
    · have hnot : ¬Text.HasTilde word := fun h =>
        hhead (by rw [← List.head?_eq_getElem?, h.1])
      rw [if_neg (fun h => hhead h.2), ok_bind, Piece.ofText_of_not_hasTilde hmode hnot]
      exact bare_rest scope _ false hfuel (Nat.zero_le _) {}

end Indexed

open Indexed in
/-- **The expander always makes progress, within the word.** By position, in every state:

* a dollar sign is passed, up to where it is read to and no more than there is;
* so is a quotation with its closing quote;
* looking for a closing brace stays in the word and finds the brace that is read as closing;
* only shorter words are gone on with: within braces, and behind an operator;
* with fuel for the characters of a word and one more, an expansion never leaves the word nor runs
  out of fuel, and has the fields or the failure of the expansion. -/
theorem Builtin.expand_progresses (builtin : Builtin) (split quoted : Bool) :
    (∀ (nested : Text → Fields → Except Stop Fields) (word rest : Text) (i j : Nat)
        (fields fields' : Fields), word.drop i = '$' :: rest →
      dollar builtin.scope split quoted (braces builtin.scope split quoted nested) word i fields =
        .ok (j, fields') →
      i < j ∧ j ≤ word.length ∧ word.drop j = (afterDollar quoted rest).2) ∧
    (∀ (fuel : Nat) (sawList : Bool) (word : Text) (i j : Nat) (fields fields' : Fields),
      quotation builtin.scope split true fuel sawList word i fields = .ok (j, fields') →
      i < j ∧ j ≤ word.length) ∧
    (∀ (word : Text) (i : Nat), ∃ found, Indexed.closingBrace word 1 i = .ok found ∧
      found = (closingBrace? (word.drop i)).map (fun cut => i + cut.1.length) ∧
      ∀ j ∈ found, i ≤ j ∧ j < word.length) ∧
    (∀ (inside inside' : Text → Fields → Except Stop Fields) (word : Text) (i : Nat)
        (fields : Fields),
      (∀ body : Text, body.length < word.length → inside body = inside' body) →
      dollar builtin.scope split quoted inside word i fields =
        dollar builtin.scope split quoted inside' word i fields) ∧
    (∀ (nested nested' : Text → Fields → Except Stop Fields) (body : Text) (fields : Fields),
      (∀ word : Text, word.length < body.length → nested word = nested' word) →
      braces builtin.scope split quoted nested body fields =
        braces builtin.scope split quoted nested' body fields) ∧
    ∀ (mode : Mode) (word : Text) (fuel : Nat), word.length < fuel →
      Indexed.expand fuel builtin.scope mode word =
          ofExcept ((Oracle.expand word mode).outcome builtin).1 ∧
        ∀ stop, Indexed.expand fuel builtin.scope mode word = .error stop →
          ∃ e, stop = .failure e := by
  refine ⟨fun nested word rest i j fields fields' h hok => ?_,
    fun fuel sawList word i j fields fields' hok => quotation_bounds hok, fun word i => ?_,
    fun inside inside' word i fields h => dollar_congr h,
    fun nested nested' body fields h => braces_congr builtin.scope split quoted h fields,
    fun mode word fuel hfuel => ?_⟩
  · obtain ⟨hpassed, hend⟩ := dollar_bounds (lt_length_of_drop h) hok
    exact ⟨hpassed, hend, dollar_rest h hok⟩
  · have hfound := closingBrace_eq word 0 i
    exact ⟨_, hfound, rfl, fun j hj => closingBrace_bounds (hfound.trans (congrArg _ hj))⟩
  · have hexpand := Indexed.expand_eq builtin.scope mode hfuel
    refine ⟨hexpand, fun stop hstop => ?_⟩
    rw [hexpand] at hstop
    cases hresult : builtin.scope.expand mode word with
    | ok fields =>
      rw [hresult] at hstop
      cases hstop
    | error e =>
      rw [hresult] at hstop
      cases hstop
      exact ⟨e, rfl⟩

open Indexed in
/-- A quotation, a nested word, and a backslash at the very end, behind which the position lies past
the end of the word. -/
theorem Builtin.expand_progresses_of_backslash :
    let vars : Variables := Variables.ofList [(['x'], { value := ['1'] })]
    let scope : Scope := { vars }
    let builtin : Builtin := { scope }
    let word : Text := "\"$x\"${y-$x}\\".toList
    let literal : Fields := Fields.literal {} ['1']
    let leave : Text → Fields → Except Stop Fields := fun _ fields => .ok fields
    let guarded : Text → Fields → Except Stop Fields := fun body fields =>
      if body.length < word.length then .ok fields else .error .outOfFuel
    (word.drop 1 = '$' :: word.drop 2 ∧
      dollar scope true true (braces scope true true leave) word 1 {} = .ok (3, literal) ∧
      quotation scope true true 14 false word 1 {} = .ok (4, literal) ∧
      (∀ body : Text, body.length < word.length → guarded body = leave body) ∧
      word.length < 14) ∧
    (1 < 3 ∧ 3 ≤ word.length ∧ word.drop 3 = (afterDollar true (word.drop 2)).2) ∧
    (1 < 4 ∧ 4 ≤ word.length) ∧
    (Indexed.closingBrace word 1 6 = .ok (some 10) ∧ 6 ≤ 10 ∧ 10 < word.length) ∧
    dollar scope true true guarded word 4 literal = dollar scope true true leave word 4 literal ∧
    braces scope true true guarded "y-$x".toList literal =
      braces scope true true leave "y-$x".toList literal ∧
    Indexed.expand 14 builtin.scope .split word = .ok ["11\\".toList] := by
  intro vars scope builtin word literal leave guarded
  have hs : word.drop 1 = '$' :: word.drop 2 := by decide
  have hdollar : dollar scope true true (braces scope true true leave) word 1 {} =
      .ok (3, literal) := by rfl
  have hquotation : quotation scope true true 14 false word 1 {} = .ok (4, literal) := by rfl
  have hguarded : ∀ body : Text, body.length < word.length → guarded body = leave body :=
    fun body hbody => funext fun fields => if_pos hbody
  have hlength : word.length < 14 := by decide
  have hresult : Scope.expand { vars := Variables.ofList [(['x'], { value := ['1'] })] } .split
      "\"$x\"${y-$x}\\".toList = .ok ["11\\".toList] := by decide +kernel
  obtain ⟨hpasses, hcloses, hbraces, hinside, hnested, hexpand⟩ :=
    expand_progresses builtin true true
  obtain ⟨found, hbrace, hfound, hin⟩ := hbraces word 6
  have hten : found = some 10 := hfound.trans (by decide)
  subst hten
  refine ⟨⟨hs, hdollar, hquotation, hguarded, hlength⟩, hpasses _ _ _ _ _ _ _ hs hdollar,
    hcloses _ _ _ _ _ _ _ hquotation, ⟨hbrace, hin 10 rfl⟩, hinside _ _ _ _ _ hguarded,
    hnested _ _ _ _ fun body hbody => hguarded body ?_,
    (hexpand .split word 14 hlength).1.trans (congrArg ofExcept hresult)⟩
  exact Nat.lt_trans hbody (by decide)

end ShellFold
