import Mathlib
import ShellFold.Proofs.Expansion.Boundary
import ShellFold.Proofs.Expansion.Similar
import ShellFold.Proofs.Expansion.Tilde
import ShellFold.Proofs.Session.Settled
import ShellFold.Resolve.Words

/-!
# Literals behind raw text

When a literal put behind raw text stands for itself. `Text.Absorbs` names the two ways in which
the text before it takes a part of it in: a parameter name without braces is made longer, and a
lone tilde is made part of another tilde word. `expand_rawThen_iff` says that there is no other.
-/

set_option autoImplicit false

namespace ShellFold

namespace Text

/-- The raw text `p` takes in the beginning of the literal `s` put behind it. -/
def Absorbs (p s : Text) : Prop :=
  ∃ source, s.quote? = some source ∧
    (p.EndsInName ∧ (∃ c, source.head? = some c ∧ isNameChar c = true) ∨
      p = ['~'] ∧ source.head? ≠ some '/')

/-- Name characters at the front of what quoting writes are the text itself. -/
theorem Written.name_front {s t : Text} (h : Written s t) :
    ∃ y s' t', t = y ++ t' ∧ s = y ++ s' ∧ Written s' t' ∧
      (∀ c ∈ y, isNameChar c = true) ∧ t'.Avoids isNameChar := by
  induction h with
  | nil => exact ⟨[], [], [], rfl, rfl, .nil, by simp, fun c hc => by cases hc⟩
  | @bare c s t hc hw ih =>
    by_cases hname : isNameChar c = true
    · obtain ⟨y, s', t', rfl, rfl, hw', hy, ht'⟩ := ih
      refine ⟨c :: y, s', t', rfl, rfl, hw', fun d hd => ?_, ht'⟩
      rcases List.mem_cons.1 hd with rfl | hd
      · exact hname
      · exact hy d hd
    · refine ⟨[], c :: s, c :: t, rfl, rfl, .bare hc hw, by simp, fun d hd => ?_⟩
      cases hd
      simpa using hname
  | single hr hw =>
    refine ⟨[], _, _, rfl, rfl, .single hr hw, by simp, fun d hd => ?_⟩
    cases hd
    rfl
  | double hr hw =>
    refine ⟨[], _, _, rfl, rfl, .double hr hw, by simp, fun d hd => ?_⟩
    cases hd
    rfl

end Text

/-! ## Tildes at the front -/

namespace Piece

/-- The reading of a text that expands goes on in what follows it, unless it is a lone tilde. -/
theorem ofText_append {scope : Scope} {p t : Text} {fields : Fields}
    (h : evalAll scope false (ofText .noSplit p) {} = .ok fields) (ht : t.head? ≠ some '~')
    (htilde : p = ['~'] → t.head? = some '/') :
    ∃ front body pieces, p = front ++ body ∧ (front = [] ∨ front = ['~']) ∧
      ofText .noSplit p = pieces ++ read .bare body ∧
      ofText .noSplit (p ++ t) = pieces ++ read .bare (body ++ t) := by
  have hbare : p.head? ≠ some '~' ∧ (p ++ t).head? ≠ some '~' ∨
      (tildeWord p).any hidesTilde = true ∨
      ∃ body, p = '~' :: body ∧ (tildeWord p).any hidesTilde = false := by
    cases p with
    | nil => exact .inl ⟨by simp, ht⟩
    | cons c body =>
      by_cases hc : c = '~'
      · subst hc
        cases hhides : (tildeWord ('~' :: body)).any hidesTilde
        · exact .inr (.inr ⟨body, rfl, rfl⟩)
        · exact .inr (.inl rfl)
      · exact .inl ⟨by simpa using hc, by simpa using hc⟩
  rcases hbare with ⟨hp, hpt⟩ | hhides | ⟨body, rfl, hhides⟩
  · exact ⟨[], p, [], rfl, .inl rfl, ofText_of_head hp, ofText_of_head hpt⟩
  · exact ⟨[], p, [], rfl, .inl rfl, ofText_of_hidden hhides,
      ofText_of_hidden (any_hidesTilde_append hhides t)⟩
  · rw [ofText_tilde hhides, evalAll] at h
    obtain ⟨mid, hmid, -⟩ := bind_eq_ok.1 h
    have hword := eq_of_eval_ofTilde hmid
    have hbody : ∀ c, body.head? = some c → c = '/' := by
      intro c hc
      cases body with
      | nil => cases hc
      | cons d body =>
        cases hc
        by_cases hne : c = '/'
        · exact hne
        · simp [tildeWord, hne] at hword
    refine ⟨['~'], body, [home], rfl, .inr rfl, ofText_home hbody, ofText_home fun c hc => ?_⟩
    cases body with
    | nil =>
      change t.head? = some c at hc
      rw [htilde rfl] at hc
      exact (Option.some.inj hc).symm
    | cons d body => exact hbody c hc

end Piece

/-! ## What stands behind the raw text -/

namespace Scope

variable {scope : Scope} {p s t v : Text}

theorem expand_noSplit_eq_ok :
    scope.expand .noSplit p = .ok [v] ↔
      ∃ fields, Piece.evalAll scope false (Piece.ofText .noSplit p) {} = .ok fields ∧
        fields.current = v := by
  show (Piece.evalAll scope false (Piece.ofText .noSplit p) {} >>=
    fun fields => Except.ok [fields.current]) = _ ↔ _
  rw [bind_eq_ok]
  simp

/-- What the raw text does not absorb is added to it. -/
theorem expand_append (hv : scope.expand .noSplit p = .ok [v]) (hw : Text.Written s t)
    (ht : t ≠ []) (hseals : p.Seals t) (htilde : p = ['~'] → t.head? = some '/') :
    scope.expand .noSplit (p ++ t) = .ok [v ++ s] := by
  obtain ⟨fields, hfields, rfl⟩ := expand_noSplit_eq_ok.1 hv
  obtain ⟨front, body, pieces, rfl, hfront, hp, hpt⟩ :=
    Piece.ofText_append hfields (head?_written hw) htilde
  have hfront : front.endsEscaping = false := by rcases hfront with rfl | rfl <;> rfl
  rw [hp, Piece.evalAll_append] at hfields
  obtain ⟨mid, hmid, hbody⟩ := bind_eq_ok.1 hfields
  have hreads := Reads.of_evalAll (q := .bare) trivial hbody
  refine expand_noSplit_eq_ok.2 ⟨fields.literal s, ?_, rfl⟩
  rw [hpt, Piece.evalAll_append, hmid, ok_bind, hreads.append (hseals.of_append hfront),
    ← List.append_nil t, Piece.evalAll_written hw ht, Piece.evalAll_read_nil _ _ rfl]

/-! ## Names made longer -/

theorem isName_append {name y : Text} (hname : Text.isName name = true)
    (hy : ∀ c ∈ y, Text.isNameChar c = true) : Text.isName (name ++ y) = true := by
  cases name with
  | nil => cases hname
  | cons c name =>
    simp only [Text.isName, List.cons_append, Bool.and_eq_true, List.all_append,
      List.all_eq_true] at hname ⊢
    exact ⟨hname.1, hname.2, hy⟩

/-- A name without braces adds its value. -/
theorem current_of_name {name : Text} {fields fields' : Fields}
    (h : Piece.evalAll scope false (Piece.read .bare ('$' :: name ++ t)) fields = .ok fields')
    (hname : Text.isName name = true) (ht : t.Avoids Text.isNameChar) (hw : Text.Written s t) :
    fields'.current = fields.current ++ (scope.value? name).getD [] ++ s ∧
      (scope.value? name ≠ none → scope.separators.isOk = true) := by
  rw [Reads.evalAll_name hname ht] at h
  obtain ⟨mid, hemit, h⟩ := bind_eq_ok.1 h
  obtain ⟨hcurrent, hseparators⟩ := emit_eq_ok hemit
  obtain ⟨parts, hread, rfl, -⟩ := Piece.read_written hw []
  rw [← List.append_nil t, hread, Piece.evalAll_texts, Piece.evalAll_read_nil _ _ rfl] at h
  cases h
  refine ⟨?_, hseparators⟩
  rw [← hcurrent]
  exact Fields.current_foldl_literal parts mid

/-- A lone tilde in front leaves a name at the end where it is. -/
theorem exists_name_of_front {front body before name : Text}
    (hsplit : before ++ '$' :: name = front ++ body) (hfront : front = [] ∨ front = ['~'])
    (hbefore : before.endsEscaping = false) :
    ∃ before', body = before' ++ '$' :: name ∧ before'.endsEscaping = false := by
  rcases hfront with rfl | rfl
  · exact ⟨before, hsplit.symm, hbefore⟩
  · cases before with
    | nil => simp at hsplit
    | cons c before =>
      simp only [List.cons_append, List.nil_append, List.cons.injEq] at hsplit
      obtain ⟨rfl, rfl⟩ := hsplit
      have htilde := Text.endsEscaping_append (s := ['~']) rfl before
      exact ⟨before, rfl, htilde.symm.trans hbefore⟩

/-- A name at the end of the raw text is made longer by the name characters behind it. -/
theorem expand_longer_name {before name y : Text}
    (hv : scope.expand .noSplit (before ++ '$' :: name) = .ok [v])
    (hbefore : before.endsEscaping = false) (hname : Text.isName name = true)
    (hy : ∀ c ∈ y, Text.isNameChar c = true) (ht : t.Avoids Text.isNameChar)
    (hw : Text.Written s t) :
    ∃ u, v = u ++ (scope.value? name).getD [] ∧ ∀ r,
      scope.expand .noSplit (before ++ '$' :: name ++ (y ++ t)) = .ok [r] →
      r = u ++ (scope.value? (name ++ y)).getD [] ++ s ∧
        (scope.value? (name ++ y) ≠ none → scope.separators.isOk = true) := by
  have hhead : (y ++ t).head? ≠ some '~' := by
    cases y with
    | nil => exact head?_written hw
    | cons c y =>
      intro hc
      cases hc
      exact absurd (hy '~' (.head _)) (by decide)
  have hlone : before ++ '$' :: name = ['~'] → (y ++ t).head? = some '/' := by
    intro hp
    have := congrArg ('$' ∈ ·) hp
    simp at this
  obtain ⟨fields, hfields, rfl⟩ := expand_noSplit_eq_ok.1 hv
  obtain ⟨front, body, pieces, hsplit, hfront, hp, hpt⟩ := Piece.ofText_append hfields hhead hlone
  obtain ⟨before', rfl, hbefore'⟩ := exists_name_of_front hsplit hfront hbefore
  rw [hp, Piece.evalAll_append] at hfields
  obtain ⟨start, hstart, hbody⟩ := bind_eq_ok.1 hfields
  obtain ⟨mid, hreads, hcut⟩ :=
    (Reads.of_evalAll (q := .bare) trivial hbody).cut_name hbefore' hname trivial
  have hmid : fields.current = mid.current ++ (scope.value? name).getD [] := by
    have heval := hreads.evalAll
    rw [← List.append_nil name, ← List.cons_append] at heval
    have := (current_of_name heval hname (fun c hc => by cases hc) .nil).1
    rwa [List.append_nil] at this
  refine ⟨mid.current, hmid, fun r hr => ?_⟩
  obtain ⟨fields', hfields', rfl⟩ := expand_noSplit_eq_ok.1 hr
  have hlonger : '$' :: name ++ (y ++ t) = '$' :: (name ++ y) ++ t := by simp
  rw [hpt, Piece.evalAll_append, hstart, ok_bind, hcut, hlonger] at hfields'
  exact current_of_name hfields' (isName_append hname hy) ht hw

/-- The scope with another value for a variable. -/
def withValue (scope : Scope) (name value : Text) : Scope :=
  { scope with vars := scope.vars.insert name { value } }

theorem value?_withValue (name value other : Text) :
    (scope.withValue name value).value? other =
      if name = other then some value else scope.value? other := by
  simp only [withValue, Scope.value?, Variables.value?, Variables.get?_insert]
  split <;> rfl

/-- A value that is neither empty nor a pattern may be replaced by another such value. -/
theorem similar_withValue {name u w : Text} (hset : scope.value? name = some u)
    (hempty : u.isEmpty = w.isEmpty) (hglob : w.any isGlob = true → u.any isGlob = true)
    (hifs : name ≠ "IFS".toList) : scope.Similar (scope.withValue name w) := by
  refine ⟨rfl, rfl, ?_, fun other => ?_⟩
  · simp only [separators, value?_withValue, if_neg hifs]
  · rw [value?_withValue]
    split
    · next he =>
      rw [← he, hset]
      exact .set hempty hglob
    · exact .refl _

theorem Similar.expand_noSplit {a b : Scope} (h : a.Similar b)
    (hv : a.expand .noSplit p = .ok [v]) : ∃ v', b.expand .noSplit p = .ok [v'] := by
  obtain ⟨fields, hfields, -⟩ := expand_noSplit_eq_ok.1 hv
  obtain ⟨fields', hfields'⟩ := isOk_iff.1
    (Piece.evalAll_similar h _ {} (isOk_iff.2 ⟨fields, hfields⟩))
  exact ⟨_, expand_noSplit_eq_ok.2 ⟨fields', hfields', rfl⟩⟩

/-- A value with a name character in it does not separate fields. -/
theorem ne_ifs_of_value {name u y : Text} (hset : scope.value? name = some (u ++ y))
    (hy : ∀ c ∈ y, Text.isNameChar c = true) (hne : y ≠ [])
    (hseparators : scope.separators.isOk = true) : name ≠ "IFS".toList := by
  rintro rfl
  obtain ⟨separators, hs⟩ := isOk_iff.1 hseparators
  simp only [Scope.separators, hset, Option.getD_some] at hs
  split at hs
  · next hblank =>
    obtain ⟨c, y, rfl⟩ := List.exists_cons_of_ne_nil hne
    have hmem := of_decide_eq_true (List.all_eq_true.1 hblank c (by simp))
    exact absurd hmem (Text.notMem_of_kind (hy c (.head _)) (by decide))
  · cases hs

/-- In some scope the longer name does not stand for the name followed by the literal. -/
theorem exists_expand_append_ne_of_name (hv : scope.expand .noSplit p = .ok [v])
    (hp : p.EndsInName) (hw : Text.Written s t)
    (ht : ∃ c, t.head? = some c ∧ Text.isNameChar c = true) :
    ∃ (scope' : Scope) (v' : Text), scope'.expand .noSplit p = .ok [v'] ∧
      scope'.expand .noSplit (p ++ t) ≠ .ok [v' ++ s] := by
  by_cases hne : scope.expand .noSplit (p ++ t) = .ok [v ++ s]
  case neg => exact ⟨scope, v, hv, hne⟩
  obtain ⟨before, name, rfl, hbefore, hname⟩ := hp
  obtain ⟨y, s', t', rfl, rfl, hw', hy, ht'⟩ := hw.name_front
  have hyne : y ≠ [] := by
    rintro rfl
    obtain ⟨c, hc, hnamechar⟩ := ht
    rw [ht' c hc] at hnamechar
    cases hnamechar
  -- here the longer name happens to have just the value that hides the difference
  obtain ⟨u, rfl, hlonger⟩ := expand_longer_name hv hbefore hname hy ht' hw'
  obtain ⟨hvalue, hseparators⟩ := hlonger _ hne
  have hvalue : (scope.value? (name ++ y)).getD [] = (scope.value? name).getD [] ++ y := by
    simp only [List.append_assoc, List.append_cancel_left_eq] at hvalue
    rw [← List.append_assoc, List.append_cancel_right_eq] at hvalue
    exact hvalue.symm
  obtain ⟨w, hset⟩ : ∃ w, scope.value? (name ++ y) = some w := by
    rw [← Option.ne_none_iff_exists']
    intro hnone
    rw [hnone] at hvalue
    simp [hyne] at hvalue
  rw [hset, Option.getD_some] at hvalue
  have hifs : name ++ y ≠ "IFS".toList := by
    refine ne_ifs_of_value (hvalue ▸ hset) hy hyne (hseparators ?_)
    rw [hset]
    simp
  have hsimilar : scope.Similar (scope.withValue (name ++ y) (w ++ ['_'])) := by
    refine similar_withValue hset ?_ (fun hglob => ?_) hifs
    · rw [hvalue, List.isEmpty_eq_false_iff.2 (by simp [hyne]),
        List.isEmpty_eq_false_iff.2 (by simp)]
    · simpa [isGlob] using hglob
  obtain ⟨v', hv'⟩ := hsimilar.expand_noSplit hv
  refine ⟨_, v', hv', fun heq => ?_⟩
  obtain ⟨u', rfl, hlonger'⟩ := expand_longer_name hv' hbefore hname hy ht' hw'
  have hvalue' := (hlonger' _ heq).1
  have hne : name ++ y ≠ name := by simpa using hyne
  rw [value?_withValue, value?_withValue, if_pos rfl, if_neg hne, Option.getD_some,
    hvalue] at hvalue'
  have := congrArg List.length hvalue'
  simp at this

/-! ## Lone tildes -/

theorem expand_tilde {directory : Text} (h : scope.value? "HOME".toList = some directory) :
    scope.expand .noSplit ['~'] = .ok [directory] := by
  refine expand_noSplit_eq_ok.2 ⟨({} : Fields).literal directory, ?_, rfl⟩
  rw [Piece.ofText_home (fun c hc => by cases hc), Piece.evalAll, Piece.eval, h, ok_bind,
    Piece.evalAll_read_nil _ _ rfl]

/-- Anything but a slash takes the home directory away from a lone tilde. -/
theorem expand_tilde_append_ne (hw : Text.Written s t) (hne : t ≠ []) (ht : t.head? ≠ some '/') :
    scope.expand .noSplit ('~' :: t) ≠ .ok [s] := by
  intro heq
  obtain ⟨fields, hfields, hcurrent⟩ := expand_noSplit_eq_ok.1 heq
  cases hhides : (Piece.tildeWord ('~' :: t)).any Piece.hidesTilde with
  | true =>
    -- the tilde stands for itself
    obtain ⟨parts, hread, rfl, -⟩ := Piece.read_written hw []
    rw [Piece.ofText_of_hidden hhides, Piece.read_text (Quoting.step_plain rfl _ _),
      ← List.append_nil t, hread, Piece.evalAll, Piece.eval, ok_bind, Piece.evalAll_texts,
      Piece.evalAll_read_nil _ _ rfl, Except.ok.injEq] at hfields
    rw [← hfields, Fields.current_foldl_literal] at hcurrent
    have := congrArg List.length hcurrent
    simp [Fields.literal] at this
  | false =>
    -- the tilde is the beginning of a user's name
    rw [Piece.ofText_tilde hhides, Piece.evalAll] at hfields
    obtain ⟨mid, hmid, -⟩ := bind_eq_ok.1 hfields
    have hword := Piece.eq_of_eval_ofTilde hmid
    obtain ⟨c, t, rfl⟩ := List.exists_cons_of_ne_nil hne
    have hc : c ≠ '/' := by simpa using ht
    simp [Piece.tildeWord, hc] at hword

/-- In some scope a lone tilde does not stand for the home directory followed by the literal. -/
theorem exists_expand_append_ne_of_tilde (scope : Scope) (hw : Text.Written s t) (hne : t ≠ [])
    (ht : t.head? ≠ some '/') :
    ∃ (scope' : Scope) (v' : Text), scope'.expand .noSplit ['~'] = .ok [v'] ∧
      scope'.expand .noSplit (['~'] ++ t) ≠ .ok [v' ++ s] := by
  refine ⟨scope.withValue "HOME".toList [], [], expand_tilde ?_, expand_tilde_append_ne hw hne ht⟩
  rw [value?_withValue, if_pos rfl]

/-- A literal that the raw text does not absorb is added to it. -/
theorem expand_append_of_not_absorbs (hback : p.getLast? ≠ some '\\') (hdollar : ¬ p.EndsInDollar)
    (hs : s.quote? = some t) (h : ¬ p.Absorbs s) (hv : scope.expand .noSplit p = .ok [v]) :
    scope.expand .noSplit (p ++ t) = .ok [v ++ s] := by
  refine expand_append hv (Text.written_of_quote? hs) (Text.ne_nil_of_quote? hs)
    ⟨hback, hdollar, fun hname c hc => ?_⟩ fun htilde => ?_
  · cases hnamechar : Text.isNameChar c
    · rfl
    · exact absurd ⟨t, hs, .inl ⟨hname, c, hc, hnamechar⟩⟩ h
  · exact Decidable.byContradiction fun hslash => h ⟨t, hs, .inr ⟨htilde, hslash⟩⟩

/-- A literal that the raw text absorbs is not added to it in some scope, if the raw text expands
in any. -/
theorem exists_expand_append_ne (hs : s.quote? = some t) (h : p.Absorbs s)
    (hv : scope.expand .noSplit p = .ok [v]) :
    ∃ (scope' : Scope) (v' : Text), scope'.expand .noSplit p = .ok [v'] ∧
      scope'.expand .noSplit (p ++ t) ≠ .ok [v' ++ s] := by
  obtain ⟨source, hsource, h⟩ := h
  rw [hs, Option.some.injEq] at hsource
  subst hsource
  have hw := Text.written_of_quote? hs
  rcases h with ⟨hname, hc⟩ | ⟨rfl, hslash⟩
  · exact exists_expand_append_ne_of_name hv hname hw hc
  · exact exists_expand_append_ne_of_tilde scope hw (Text.ne_nil_of_quote? hs) hslash

end Scope

/-! ## Sessions -/

/-- The word of raw text with a literal behind it. -/
def Word.rawThen (p s : Text) : Word := ⟨p.map .raw ++ [.quoted s]⟩

theorem Word.sourceText_rawThen {s t : Text} (h : s.quote? = some t) (p : Text) :
    (rawThen p s).sourceText = .ok (p ++ t) :=
  sourceText_append (sourceText_ofText p) (sourceText_literal h)

/-- **A literal behind raw text stands for itself unless the raw text absorbs it.** The raw text
ends neither in a backslash nor in a dollar sign that stands for itself. If the literal is
absorbed, there is a session in which it does not stand for itself, provided that the raw text
alone expands in any. -/
theorem expand_rawThen_iff {p s : Text} (hback : p.getLast? ≠ some '\\')
    (hdollar : ¬ p.EndsInDollar) (hnul : '\x00' ∉ s) :
    (∀ (session after : Session Builtin) (v : Text),
      (Session.expand (Word.ofText p) .noSplit).outcome session = (.ok [v], after) →
      (Session.expand (Word.rawThen p s) .noSplit).outcome session = (.ok [v ++ s], after)) ↔
    (p.Absorbs s → ∀ (session after : Session Builtin) (v : Text),
      (Session.expand (Word.ofText p) .noSplit).outcome session ≠ (.ok [v], after)) := by
  obtain ⟨t, hs⟩ := exists_quote? hnul
  have hmode : Mode.noSplit ≠ .heredoc := by decide
  have hraw := Session.outcome_expand (Word.sourceText_ofText p) hmode
  have hthen := Session.outcome_expand (Word.sourceText_rawThen hs p) hmode
  simp only [hraw, hthen]
  constructor
  · intro h habsorbs session after v hv
    obtain ⟨-, builtin, -, hexpand⟩ := Session.outcome_expandText_eq_ok.1 hv
    obtain ⟨scope, v', hv', hne⟩ := Scope.exists_expand_append_ne hs habsorbs hexpand
    let resting : Session Builtin :=
      { session with live := some ({ scope }, { path := [] }) }
    have hresting : resting.Settled { scope } := ⟨{ path := [] }, rfl, rfl⟩
    have hgoes := h resting resting v' (by rw [hresting.expandText, hv'])
    rw [hresting.expandText] at hgoes
    exact hne (congrArg Prod.fst hgoes)
  · intro h session after v hv
    have habsorbs : ¬ p.Absorbs s := fun habsorbs => h habsorbs session after v hv
    obtain ⟨hflush, builtin, hsettled, hexpand⟩ := Session.outcome_expandText_eq_ok.1 hv
    refine Session.outcome_expandText_eq_ok.2 ⟨hflush, builtin, hsettled, ?_⟩
    exact Scope.expand_append_of_not_absorbs hback hdollar hs habsorbs hexpand

/-- A session where `x` is `1`: the name character at the front of the literal makes `$x` another
parameter, which is not set. -/
theorem expand_rawThen_iff_of_name :
    let p : Text := "$x".toList
    let s : Text := "y".toList
    let scope : Scope := { vars := Variables.ofList [("x".toList, { value := "1".toList })] }
    let session : Session Builtin :=
      { settings := {}, environment := {},
        host := { hasDirectory := fun _ => true, fileText := fun _ => none }
        live := some ({ scope }, { path := [] }) }
    (p.getLast? ≠ some '\\' ∧ ¬ p.EndsInDollar ∧ '\x00' ∉ s) ∧
    ((∀ (session after : Session Builtin) (v : Text),
      (Session.expand (Word.ofText p) .noSplit).outcome session = (.ok [v], after) →
      (Session.expand (Word.rawThen p s) .noSplit).outcome session = (.ok [v ++ s], after)) ↔
    (p.Absorbs s → ∀ (session after : Session Builtin) (v : Text),
      (Session.expand (Word.ofText p) .noSplit).outcome session ≠ (.ok [v], after))) ∧
    (Session.expand (Word.ofText p) .noSplit).outcome session = (.ok ["1".toList], session) ∧
    (Session.expand (Word.rawThen p s) .noSplit).outcome session = (.ok [[]], session) := by
  intro p s scope session
  have hback : p.getLast? ≠ some '\\' := by decide
  have hdollar : ¬ p.EndsInDollar := by
    rintro ⟨before, hp, -⟩
    simpa [p] using congrArg List.getLast? hp
  have hnul : '\x00' ∉ s := by decide
  refine ⟨⟨hback, hdollar, hnul⟩, expand_rawThen_iff hback hdollar hnul, ?_, ?_⟩
  · cbv
  · cbv

end ShellFold
