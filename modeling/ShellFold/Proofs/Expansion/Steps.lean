import ShellFold.Expansion.Piece

/-!
# What a step of the reader takes

`Dollar.Takes` and `Quoting.Takes` say what the reader takes from the front of a text, and which
texts may follow for it to take just that: only a parameter name and a dollar sign that stands for
itself depend on what follows them. `Quoting.takes_of_step` reads this off a step that does not
fail, `Quoting.step_of_takes` goes back, so that proofs about the reader go by cases on what is
taken and never open the step itself. The name and the nested word of a reference are parts of what
is taken for it (`Quoting.Takes.isInfix`).
-/

set_option autoImplicit false

namespace ShellFold

/-- A text does not begin with a character of a kind. -/
def Text.Avoids (p : Char → Bool) (s : Text) : Prop := ∀ c, s.head? = some c → p c = false

/-- The characters that begin a reference, or a construct that fails, behind a dollar sign. -/
def endsSign (quoted : Bool) (c : Char) : Bool :=
  c = '{' || c = '(' || (!quoted && (c = '\'' || c = '"')) || Text.isNameStart c || c.isDigit ||
    isSpecialParameter c

/-- Behind a dollar sign `taken` is read as `ref`, if `rest` follows; a sign that stands for
itself takes nothing. -/
inductive Dollar.Takes (quoted : Bool) : Text → Text → Dollar → Prop
  | sign {rest : Text} : rest.Avoids (endsSign quoted) → Takes quoted [] rest .sign
  | braces {body rest : Text} {ref : Reference} :
      (∀ after, closingBrace? (body ++ '}' :: after) = some (body, after)) →
      Reference.ofBody body = .ok ref →
      Takes quoted ('{' :: (body ++ ['}'])) rest (.reference ref)
  | name {name rest : Text} : name.isName = true → rest.Avoids Text.isNameChar →
      Takes quoted name rest (.reference (.value name))
  | special {c : Char} {rest : Text} : (c.isDigit || isSpecialParameter c) = true →
      Takes quoted [c] rest (.reference (.value [c]))

/-- What a step over a dollar sign finds. -/
def Dollar.lexeme : Dollar → Lexeme
  | .sign => .text ['$']
  | .reference ref => .reference ref
  | .failure e => .failure e

/-- In the place `q` the reader takes `taken` as `lexeme`, if `rest` follows, and goes on in the
last place. -/
inductive Quoting.Takes (q : Quoting) : Text → Text → Lexeme → Quoting → Prop
  | joined {rest : Text} : Takes q ['\\', '\n'] rest .nothing q
  | escaped {c : Char} {rest : Text} : c ≠ '\n' →
      Takes q ['\\', c] rest (.text (if q.escapes c then [c] else ['\\', c])) q
  | backslash : Takes q ['\\'] [] (.text ['\\']) q
  | dollar {taken rest : Text} {dollar : Dollar} : Dollar.Takes q.isQuoted taken rest dollar →
      Takes q ('$' :: taken) rest dollar.lexeme (q.noteList taken)
  | quote {rest : Text} : Takes q ['"'] rest (q.stepQuote rest).lexeme (q.stepQuote rest).quoting
  | single {run rest : Text} : q = .bare → '\'' ∉ run →
      Takes q ('\'' :: (run ++ ['\''])) rest (.text run) .bare
  | plain {c : Char} {rest : Text} : c ≠ '\\' → c ≠ '$' → c ≠ '\x60' → c ≠ '"' →
      (q = .bare → c ≠ '\'' ∧ c ≠ '[') → Takes q [c] rest (.text [c]) q

/-! ## Braces -/

theorem closingBraceFrom?_cons {c : Char} (hc : c ≠ '\\') (depth : Nat) (s : Text) :
    closingBraceFrom? depth (c :: s) =
      if c = '}' then
        match depth with
        | 0 => some ([], s)
        | depth + 1 => (closingBraceFrom? depth s).map fun (body, after) => (c :: body, after)
      else
        (closingBraceFrom? (if c = '{' then depth + 1 else depth) s).map
          fun (body, after) => (c :: body, after) := by
  rw [closingBraceFrom?.eq_def]
  split
  · next h => cases h
  · next h =>
    cases h
    exact absurd rfl hc
  · next h =>
    cases h
    rfl

/-- A closing brace is found by what precedes it, whatever follows. -/
theorem closingBraceFrom?_append {depth : Nat} {s body after : Text}
    (h : closingBraceFrom? depth s = some (body, after)) (rest : Text) :
    closingBraceFrom? depth (body ++ '}' :: rest) = some (body, rest) := by
  fun_induction closingBraceFrom? depth s generalizing body after with
  | case1 => simp at h
  | case2 depth c s ih =>
    obtain ⟨⟨b, a⟩, hb, he⟩ := Option.map_eq_some_iff.1 h
    simp only [Prod.mk.injEq] at he
    obtain ⟨rfl, rfl⟩ := he
    simp [closingBraceFrom?, ih hb]
  | case3 s hc =>
    simp only [Option.some.injEq, Prod.mk.injEq] at h
    obtain ⟨rfl, rfl⟩ := h
    rw [List.nil_append, closingBraceFrom?_cons (by decide), if_pos rfl]
  | case4 s depth hc ih =>
    obtain ⟨⟨b, a⟩, hb, he⟩ := Option.map_eq_some_iff.1 h
    simp only [Prod.mk.injEq] at he
    obtain ⟨rfl, rfl⟩ := he
    rw [List.cons_append, closingBraceFrom?_cons (by decide), if_pos rfl]
    simp [ih hb]
  | case5 depth c s hesc hc ih =>
    obtain ⟨⟨b, a⟩, hb, he⟩ := Option.map_eq_some_iff.1 h
    simp only [Prod.mk.injEq] at he
    obtain ⟨rfl, rfl⟩ := he
    have hc' : c ≠ '\\' := by
      rintro rfl
      cases s with
      | nil => simp [closingBraceFrom?] at hb
      | cons d s => exact hesc d s rfl rfl
    rw [List.cons_append, closingBraceFrom?_cons hc', if_neg hc, ih hb]
    rfl

/-! ## Behind a dollar sign -/

theorem Text.avoids_nil (p : Char → Bool) : Avoids p [] := fun _ hc => by cases hc

theorem Text.avoids_dropWhile (p : Char → Bool) (s : Text) : Avoids p (s.dropWhile p) := by
  intro c hc
  have := List.head?_dropWhile_not p s
  rw [hc] at this
  simpa using this

theorem Text.takeWhile_of_avoids {p : Char → Bool} {run rest : Text} (hrun : ∀ c ∈ run, p c = true)
    (hrest : Avoids p rest) :
    (run ++ rest).takeWhile p = run ∧ (run ++ rest).dropWhile p = rest := by
  have hstop : rest.takeWhile p = [] ∧ rest.dropWhile p = rest := by
    cases rest with
    | nil => exact ⟨rfl, rfl⟩
    | cons c rest => simp [hrest c rfl]
  rw [List.takeWhile_append_of_pos hrun, List.dropWhile_append_of_pos hrun, hstop.1, hstop.2]
  exact ⟨List.append_nil run, rfl⟩

theorem isNameStart_of_special {c : Char} (h : (c.isDigit || isSpecialParameter c) = true) :
    Text.isNameStart c = false := by
  rcases Bool.or_eq_true_iff.1 h with h | h
  · rw [Bool.eq_false_iff]
    intro hstart
    have hdigit := Text.toNat_of_isDigit h
    rcases Bool.or_eq_true_iff.1 hstart with hstart | hstart
    · have := Text.toNat_of_isAlpha hstart
      omega
    · cases of_decide_eq_true hstart
      cases h
  · simp only [isSpecialParameter, List.mem_cons, List.not_mem_nil, or_false,
      decide_eq_true_eq] at h
    rcases h with rfl | rfl | rfl | rfl | rfl | rfl | rfl <;> decide

theorem startsList_cons (c : Char) (s : Text) :
    startsList (c :: s) = (c = '@' || c = '{' && s.head? = some '@') := by
  cases s <;> simp [startsList, List.isPrefixOf, Bool.beq_eq_decide_eq, eq_comm]

namespace Dollar

variable {quoted : Bool} {s taken rest : Text} {dollar : Dollar}

theorem takes_of_afterDollar (h : afterDollar quoted s = (dollar, rest))
    (hok : ∀ e, dollar ≠ .failure e) :
    ∃ taken, s = taken ++ rest ∧ Takes quoted taken rest dollar := by
  unfold afterDollar at h
  split at h
  · cases h
    exact ⟨[], rfl, .sign fun c hc => by cases hc⟩
  · next c s =>
    split at h
    · next hc =>
      subst hc
      split at h
      · cases h
        exact absurd rfl (hok _)
      · next body after hb =>
        split at h
        · next ref hr =>
          cases h
          refine ⟨'{' :: (body ++ ['}']), ?_, .braces (closingBraceFrom?_append hb) hr⟩
          simp [eq_of_closingBraceFrom? hb]
        · cases h
          exact absurd rfl (hok _)
    · next hbrace =>
      split at h
      · cases h
        exact absurd rfl (hok _)
      · next hparen =>
        split at h
        · cases h
          exact absurd rfl (hok _)
        · next hquote =>
          split at h
          · next hstart =>
            cases h
            refine ⟨_, List.takeWhile_append_dropWhile.symm, .name ?_ (Text.avoids_dropWhile _ _)⟩
            have hc := Text.isNameChar_of_isNameStart hstart
            rw [List.takeWhile_cons_of_pos hc]
            simp [Text.isName, hstart]
          · next hstart =>
            split at h
            · next hspecial =>
              cases h
              exact ⟨[c], rfl, .special hspecial⟩
            · next hspecial =>
              cases h
              refine ⟨[], rfl, .sign fun d hd => ?_⟩
              cases hd
              simp_all [endsSign]

theorem afterDollar_of_takes (h : Takes quoted taken rest dollar) :
    afterDollar quoted (taken ++ rest) = (dollar, rest) := by
  cases h with
  | sign hrest =>
    cases rest with
    | nil => rfl
    | cons c rest =>
      have := hrest c rfl
      simp only [endsSign, Bool.or_eq_false_iff, decide_eq_false_iff_not] at this
      simp [afterDollar, this]
  | @braces body _ ref hb hr =>
    have := hb rest
    simp [afterDollar, this, hr]
  | name hname hrest =>
    cases taken with
    | nil => cases hname
    | cons c name =>
      have hstart : Text.isNameStart c = true := by
        simp only [Text.isName, Bool.and_eq_true] at hname
        exact hname.1
      have hne := Text.notMem_of_kind hstart (l := ['{', '(', '\'', '"']) (by decide)
      simp only [List.mem_cons, List.not_mem_nil, or_false, not_or] at hne
      obtain ⟨htake, hdrop⟩ :=
        Text.takeWhile_of_avoids (fun _ => Text.isNameChar_of_mem hname) hrest
      rw [List.cons_append] at htake hdrop ⊢
      simp [afterDollar, hne, hstart, htake, hdrop]
  | @special c _ hc =>
    have hstart : Text.isNameStart c = false := isNameStart_of_special hc
    have hne := Text.notMem_of_kind (p := fun d => d.isDigit || isSpecialParameter d) hc
      (l := ['{', '(', '\'', '"']) (by decide)
    simp only [List.mem_cons, List.not_mem_nil, or_false, not_or] at hne
    simp [afterDollar, hne, hstart, hc]

/-- What decides whether the list of parameters is referred to is taken. -/
theorem Takes.startsList_append (h : Takes quoted taken rest dollar) :
    startsList (taken ++ rest) = startsList taken := by
  cases h with
  | sign hrest =>
    cases rest with
    | nil => rfl
    | cons c rest =>
      have hc := hrest c rfl
      simp only [endsSign, Bool.or_eq_false_iff, decide_eq_false_iff_not] at hc
      have hat : c ≠ '@' := by
        rintro rfl
        simp [isSpecialParameter] at hc
      show startsList (c :: rest) = false
      simp [startsList_cons, hat, hc]
  | @braces body => cases body <;> simp [startsList_cons]
  | name hname hrest =>
    rcases taken with _ | ⟨c, name⟩
    · cases hname
    · have hne : c ≠ '{' := by
        rintro rfl
        cases hname
      simp [startsList_cons, hne]
  | @special c _ hc =>
    have hne : c ≠ '{' := by
      rintro rfl
      simp [isSpecialParameter] at hc
    simp [startsList_cons, hne]

end Dollar

/-! ## In every place -/

namespace Quoting

variable {q q' : Quoting} {s taken rest : Text} {lexeme : Lexeme}

theorem step_of_takes {c : Char} (h : q.Takes (c :: taken) rest lexeme q') :
    q.step c (taken ++ rest) = ⟨lexeme, q', rest⟩ := by
  cases h with
  | joined => rfl
  | escaped hc => simp [step, stepEscape, hc]
  | backslash => rfl
  | @dollar _ _ dollar h =>
    have hlist : q.noteList (taken ++ rest) = q.noteList taken := by
      cases q <;> simp [noteList, h.startsList_append]
    simp only [step, stepDollar, Dollar.afterDollar_of_takes h, hlist]
    cases dollar <;> rfl
  | quote => cases q <;> rfl
  | @single run _ hq hrun =>
    subst hq
    simp [step, stepSingle, Text.splitOnce?_append hrun]
  | plain h1 h2 h3 h4 h5 =>
    by_cases hq : q = .bare
    · simp [step, h1, h2, h3, h4, h5 hq]
    · simp [step, h1, h2, h3, h4, hq]

theorem takes_of_stepEscape (q : Quoting) (s : Text) :
    ∃ taken, s = taken ++ (q.stepEscape s).rest ∧
      q.Takes ('\\' :: taken) (q.stepEscape s).rest (q.stepEscape s).lexeme
        (q.stepEscape s).quoting := by
  cases s with
  | nil => exact ⟨[], rfl, .backslash⟩
  | cons d s =>
    simp only [stepEscape]
    split
    · next hd =>
      subst hd
      exact ⟨['\n'], rfl, .joined⟩
    · next hd => exact ⟨[d], rfl, .escaped hd⟩

theorem takes_of_stepDollar (q : Quoting) (s : Text)
    (hok : ∀ e, (q.stepDollar s).lexeme ≠ .failure e) :
    ∃ taken, s = taken ++ (q.stepDollar s).rest ∧
      q.Takes ('$' :: taken) (q.stepDollar s).rest (q.stepDollar s).lexeme
        (q.stepDollar s).quoting := by
  rcases hd : afterDollar q.isQuoted s with ⟨dollar, rest⟩
  have hlex : (q.stepDollar s).lexeme = dollar.lexeme := by
    simp only [stepDollar, hd]
    cases dollar <;> rfl
  have hrest : (q.stepDollar s).rest = rest := by simp [stepDollar, hd]
  have hq : (q.stepDollar s).quoting = q.noteList s := by simp [stepDollar]
  obtain ⟨taken, hs, htakes⟩ := Dollar.takes_of_afterDollar hd fun e he => by
    rw [hlex, he] at hok
    exact hok e rfl
  have hlist : q.noteList (taken ++ rest) = q.noteList taken := by
    cases q <;> simp [noteList, htakes.startsList_append]
  rw [hlex, hrest, hq]
  refine ⟨taken, hs, ?_⟩
  rw [hs, hlist]
  exact .dollar htakes

/-- A step that does not fail takes something from the front of the text. -/
theorem takes_of_step (q : Quoting) (c : Char) (s : Text)
    (hok : ∀ e, (q.step c s).lexeme ≠ .failure e) :
    ∃ taken, s = taken ++ (q.step c s).rest ∧
      q.Takes (c :: taken) (q.step c s).rest (q.step c s).lexeme (q.step c s).quoting := by
  unfold step at hok ⊢
  split
  · next hc =>
    subst hc
    exact q.takes_of_stepEscape s
  · next h1 =>
    rw [if_neg h1] at hok
    split
    · next hc =>
      subst hc
      rw [if_pos rfl] at hok
      exact q.takes_of_stepDollar s hok
    · next h2 =>
      rw [if_neg h2] at hok
      split
      · next h3 =>
        rw [if_pos h3] at hok
        exact absurd rfl (hok _)
      · next h3 =>
        rw [if_neg h3] at hok
        split
        · next hc =>
          subst hc
          have hrest : (q.stepQuote s).rest = s := by cases q <;> rfl
          rw [hrest]
          exact ⟨[], rfl, .quote⟩
        · next h4 =>
          rw [if_neg h4] at hok
          split
          · next hc =>
            rw [if_pos hc] at hok
            obtain ⟨rfl, rfl⟩ := hc
            unfold stepSingle at hok ⊢
            split
            · next run after hs =>
              obtain ⟨rfl, hrun⟩ := Text.eq_of_splitOnce? hs
              exact ⟨run ++ ['\''], by simp, .single rfl hrun⟩
            · next hs =>
              rw [hs] at hok
              exact absurd rfl (hok _)
          · next h5 =>
            rw [if_neg h5] at hok
            split
            · next h6 =>
              rw [if_pos h6] at hok
              exact absurd rfl (hok _)
            · next h6 =>
              refine ⟨[], rfl, .plain h1 h2 h3 h4 fun hq => ⟨?_, ?_⟩⟩
              · exact fun hc => h5 ⟨hc, hq⟩
              · exact fun hc => h6 ⟨hc, hq⟩

end Quoting

/-! ## The parts of a reference -/

namespace Reference

/-- The parameter that a reference names. -/
def name : Reference → Text
  | value name | length name | choice _ _ name _ | rejected name _ => name

theorem parts_ofOperator (body name : Text) (nonEmpty : Bool) (operator : Char) (word : Text) :
    (ofOperator body name nonEmpty operator word).name = name ∧
      (ofOperator body name nonEmpty operator word).word <:+: word := by
  unfold ofOperator
  repeat' split
  all_goals simp [Reference.name, Reference.word]

theorem isPrefix_of_parameterName {s name rest : Text} (h : parameterName s = (name, rest)) :
    name <+: s ∧ rest <:+ s := by
  have hs := parameterName_append s
  rw [h] at hs
  exact ⟨⟨rest, hs⟩, ⟨name, hs⟩⟩

/-- The name and the nested word of a reference stand in the body it is read from. -/
theorem isInfix_of_ofBody {body : Text} {ref : Reference} (h : ofBody body = .ok ref) :
    ref.name <:+: body ∧ ref.word <:+: body := by
  unfold ofBody at h
  split at h
  · cases h
    exact ⟨(List.suffix_cons _ _).isInfix, List.nil_infix⟩
  · split at h
    · cases h
    · next hname =>
      cases h
      exact ⟨(isPrefix_of_parameterName hname).1.isInfix, List.nil_infix⟩
    · cases h
    · next hname =>
      cases h
      obtain ⟨hfront, hback⟩ := isPrefix_of_parameterName hname
      have hword := (List.suffix_cons _ _).trans ((List.suffix_cons _ _).trans hback)
      obtain ⟨hsame, hpart⟩ := parts_ofOperator body _ true _ _
      exact ⟨hsame ▸ hfront.isInfix, hpart.trans hword.isInfix⟩
    · next hname =>
      cases h
      obtain ⟨hfront, hback⟩ := isPrefix_of_parameterName hname
      have hword := (List.suffix_cons _ _).trans hback
      obtain ⟨hsame, hpart⟩ := parts_ofOperator body _ false _ _
      exact ⟨hsame ▸ hfront.isInfix, hpart.trans hword.isInfix⟩

end Reference

theorem Dollar.Takes.isInfix {quoted : Bool} {taken rest : Text} {ref : Reference}
    (h : Dollar.Takes quoted taken rest (.reference ref)) :
    ref.name <:+: taken ∧ ref.word <:+: taken := by
  cases h with
  | @braces body _ _ _ hr =>
    have hbody : body <:+: '{' :: (body ++ ['}']) := ⟨['{'], ['}'], rfl⟩
    exact (Reference.isInfix_of_ofBody hr).imp (·.trans hbody) (·.trans hbody)
  | name | special => exact ⟨List.infix_rfl, List.nil_infix⟩

/-- What a step takes for a reference holds its name and its nested word. -/
theorem Quoting.Takes.isInfix {q q' : Quoting} {taken rest : Text} {ref : Reference}
    (h : q.Takes taken rest (.reference ref) q') : ref.name <:+: taken ∧ ref.word <:+: taken := by
  generalize hlexeme : Lexeme.reference ref = lexeme at h
  cases h with
  | joined | escaped | backslash | single | plain => cases hlexeme
  | quote => rcases q with _ | (_ | _) | _ | _ <;> cases hlexeme
  | @dollar taken _ dollar h =>
    cases dollar with
    | sign | failure => cases hlexeme
    | reference =>
      cases hlexeme
      have htaken : taken <:+: '$' :: taken := (List.suffix_cons _ _).isInfix
      exact h.isInfix.imp (·.trans htaken) (·.trans htaken)

end ShellFold
