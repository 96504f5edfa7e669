import ShellFold.Proofs.Expansion.Literal

/-!
# Where raw text meets what follows it

`Reads` is the run of a reader over a text that expands successfully: step by step, ending
outside quotes. What follows such a text is read as if it stood alone (`Reads.append`), unless
the last step is one that would take more of it (`Text.Seals`). Where the text ends in a
parameter name without braces, the run is cut in front of its dollar sign (`Reads.cut_name`).
-/

set_option autoImplicit false

namespace ShellFold

/-! ## Backslashes at the end -/

/-- Whether an odd number of backslashes stands at the end of a text, so that the last of them
takes the meaning from what follows. -/
def Text.endsEscaping (s : Text) : Bool := s.foldl (fun odd c => c = '\\' && !odd) false

namespace Text

theorem endsEscaping_append {s : Text} (h : s.endsEscaping = false) (t : Text) :
    endsEscaping (s ++ t) = endsEscaping t := by
  unfold endsEscaping at h ⊢
  rw [List.foldl_append, h]

theorem endsEscaping_concat (s : Text) {c : Char} (hc : c ≠ '\\') :
    endsEscaping (s ++ [c]) = false := by
  simp [endsEscaping, hc]

theorem endsEscaping_of_notMem {s : Text} (h : '\\' ∉ s) : s.endsEscaping = false := by
  rcases List.eq_nil_or_concat s with rfl | ⟨s, c, rfl⟩
  · rfl
  · rw [List.concat_eq_append] at h ⊢
    refine endsEscaping_concat s ?_
    rintro rfl
    exact h (by simp)

/-- The text ends in a dollar sign that stands for itself. -/
def EndsInDollar (s : Text) : Prop := ∃ before, s = before ++ ['$'] ∧ before.endsEscaping = false

/-- The text ends in a parameter name without braces. -/
def EndsInName (s : Text) : Prop :=
  ∃ before name, s = before ++ '$' :: name ∧ before.endsEscaping = false ∧ isName name = true

/-- No step of the reader that reaches the end of `s` takes anything of `t`. -/
structure Seals (s t : Text) : Prop where
  backslash : s.getLast? ≠ some '\\'
  dollar : ¬ EndsInDollar s
  name : EndsInName s → t.Avoids isNameChar

/-- What is true of the end of a text does not depend on what stands in front. -/
theorem Seals.of_append {s s' t : Text} (hs : s.endsEscaping = false) (h : Seals (s ++ s') t) :
    Seals s' t := by
  refine ⟨fun hl => h.backslash ?_, ?_, ?_⟩
  · rw [List.getLast?_append, hl]
    rfl
  · rintro ⟨before, rfl, hb⟩
    exact h.dollar ⟨s ++ before, by simp, by rw [endsEscaping_append hs, hb]⟩
  · rintro ⟨before, name, rfl, hb, hn⟩
    exact h.name ⟨s ++ before, name, by simp, by rw [endsEscaping_append hs, hb], hn⟩

end Text

/-! ## Steps that reach the end -/

namespace Quoting

variable {q q' : Quoting} {taken rest t : Text} {lexeme : Lexeme}

theorem Takes.rest_of_backslash (h : q.Takes ['\\'] rest lexeme q') : rest = [] := by
  cases h with
  | backslash => rfl
  | plain hc => exact absurd rfl hc

/-- Only a backslash at the very end leaves the next character escaped. -/
theorem Takes.endsEscaping (h : q.Takes taken rest lexeme q') (hne : taken ≠ ['\\']) :
    taken.endsEscaping = false := by
  cases h with
  | joined => rfl
  | @escaped c => cases hc : decide (c = '\\') <;> simp [Text.endsEscaping, hc]
  | backslash => exact absurd rfl hne
  | dollar h =>
    cases h with
    | sign => rfl
    | @braces body =>
      rw [show '$' :: '{' :: (body ++ ['}']) = ('$' :: '{' :: body) ++ ['}'] from rfl]
      exact Text.endsEscaping_concat _ (by decide)
    | name hn =>
      refine Text.endsEscaping_of_notMem ?_
      rw [List.mem_cons, not_or]
      exact ⟨by decide, Text.notMem_of_isName hn (by decide)⟩
    | @special c _ hc =>
      refine Text.endsEscaping_concat ['$'] ?_
      rintro rfl
      simp [isSpecialParameter] at hc
  | quote => rfl
  | @single run =>
    rw [show '\'' :: (run ++ ['\'']) = ('\'' :: run) ++ ['\''] from rfl]
    exact Text.endsEscaping_concat _ (by decide)
  | plain hc => exact Text.endsEscaping_concat [] hc

theorem avoids_append {p : Char → Bool} (h : rest.Avoids p) (hrest : rest = [] → t.Avoids p) :
    (rest ++ t).Avoids p := by
  cases rest with
  | nil => exact hrest rfl
  | cons c rest => exact h

/-- A step takes the same where more follows, if it does not reach the end or the end is sealed. -/
theorem Takes.extend (h : q.Takes taken rest lexeme q')
    (hrest : rest = [] → Text.Seals taken t) : q.Takes taken (rest ++ t) lexeme q' := by
  cases h with
  | joined => exact .joined
  | escaped hc => exact .escaped hc
  | backslash => exact absurd rfl (hrest rfl).backslash
  | dollar h =>
    refine .dollar ?_
    cases h with
    | sign havoid =>
      exact .sign (avoids_append havoid fun hr => absurd ⟨[], rfl, rfl⟩ (hrest hr).dollar)
    | braces hb hr => exact .braces hb hr
    | name hn havoid =>
      exact .name hn (avoids_append havoid fun hr => (hrest hr).name ⟨[], _, rfl, rfl, hn⟩)
    | special hc => exact .special hc
  | quote => cases q <;> exact .quote
  | single hq hrun => exact .single hq hrun
  | plain h1 h2 h3 h4 h5 => exact .plain h1 h2 h3 h4 h5

/-- Outside nested words and here-documents. -/
def IsTop : Quoting → Prop
  | bare | quoted _ => True
  | nested _ | document => False

theorem Takes.isTop (h : q.Takes taken rest lexeme q') (hq : q.IsTop) : q'.IsTop := by
  cases h with
  | joined | escaped _ | backslash | plain _ _ _ _ _ => exact hq
  | dollar _ => cases q <;> exact hq
  | quote => cases q <;> trivial
  | single => trivial

end Quoting

/-! ## Runs of the reader -/

/-- The pieces that a step adds. -/
def Lexeme.pieces (q : Quoting) : Lexeme → List Piece
  | .nothing => []
  | .text s => [.text s]
  | .reference ref =>
    [Piece.ofReference q.isQuoted
      (Piece.read (if q.isQuoted then .nested false else .bare) ref.word) ref]
  | .failure e => [.failure e]

namespace Piece

variable {q q' : Quoting} {taken rest : Text} {lexeme : Lexeme}

/-- Reads a text of which a step takes the front. -/
theorem read_takes {c : Char} (h : q.Takes (c :: taken) rest lexeme q')
    (hok : ∀ e, lexeme ≠ .failure e) :
    read q (c :: taken ++ rest) = lexeme.pieces q ++ read q' rest := by
  rw [List.cons_append, read_cons, Quoting.step_of_takes h]
  cases lexeme with
  | failure e => exact absurd rfl (hok e)
  | nothing | text _ | reference _ => rfl

theorem evalAll_append (scope : Scope) (split : Bool) (pieces pieces' : List Piece)
    (fields : Fields) :
    evalAll scope split (pieces ++ pieces') fields =
      evalAll scope split pieces fields >>= evalAll scope split pieces' := by
  induction pieces generalizing fields with
  | nil => rfl
  | cons piece pieces ih =>
    rw [List.cons_append, evalAll, evalAll]
    rcases piece.eval scope split fields with e | mid
    · rfl
    · exact ih mid

end Piece

/-- A text that is read from a place to its end, outside quotes at last, and what it adds to the
fields in a scope. -/
inductive Reads (scope : Scope) (split : Bool) : Quoting → Text → Fields → Fields → Prop
  | done {fields : Fields} : Reads scope split .bare [] fields fields
  | step {q q' : Quoting} {c : Char} {taken rest : Text} {lexeme : Lexeme}
      {fields mid fields' : Fields} :
      q.Takes (c :: taken) rest lexeme q' → (∀ e, lexeme ≠ .failure e) →
      Piece.evalAll scope split (lexeme.pieces q) fields = .ok mid →
      Reads scope split q' rest mid fields' →
      Reads scope split q (c :: taken ++ rest) fields fields'

namespace Reads

variable {scope : Scope} {split : Bool}

/-- A text that expands is read to its end. -/
theorem of_evalAll {q : Quoting} {s : Text} {fields fields' : Fields} (hq : q.IsTop)
    (h : Piece.evalAll scope split (Piece.read q s) fields = .ok fields') :
    Reads scope split q s fields fields' := by
  match s, q, hq with
  | [], .bare, _ =>
    rw [Piece.evalAll_read_nil _ _ rfl] at h
    cases h
    exact .done
  | [], .quoted _, _ =>
    rw [Piece.read_nil] at h
    cases h
  | c :: s, q, hq =>
    rw [Piece.read_cons] at h
    have hok : ∀ e, (q.step c s).lexeme ≠ .failure e := by
      intro e he
      rw [he] at h
      cases h
    obtain ⟨taken, hs, htakes⟩ := q.takes_of_step c s hok
    have hread := Piece.read_takes htakes hok
    rw [List.cons_append, ← hs, Piece.read_cons] at hread
    rw [hread, Piece.evalAll_append] at h
    obtain ⟨mid, hmid, hrest⟩ := bind_eq_ok.1 h
    have hlen := q.length_step c s
    rw [hs, ← List.cons_append]
    exact .step htakes hok hmid (of_evalAll (htakes.isTop hq) hrest)
termination_by s.length
decreasing_by
  simp only [List.length_cons]
  omega

variable {q : Quoting} {s t : Text} {fields fields' : Fields}

theorem evalAll (h : Reads scope split q s fields fields') :
    Piece.evalAll scope split (Piece.read q s) fields = .ok fields' := by
  induction h with
  | done => exact Piece.evalAll_read_nil _ _ rfl _
  | step htakes hok hmid _ ih => rw [Piece.read_takes htakes hok, Piece.evalAll_append, hmid,
      ok_bind, ih]

/-- **What follows a sealed text is read as if it stood alone.** -/
theorem append (h : Reads scope split q s fields fields') (hs : s.Seals t) :
    Piece.evalAll scope split (Piece.read q (s ++ t)) fields =
      Piece.evalAll scope split (Piece.read .bare t) fields' := by
  induction h with
  | done => rfl
  | @step q q' c taken rest lexeme fields mid fields' htakes hok hmid _ ih =>
    have hne : c :: taken ≠ ['\\'] := by
      intro he
      rw [he] at htakes hs
      exact hs.backslash (by rw [htakes.rest_of_backslash]; rfl)
    have htakes' := htakes.extend (t := t) fun hr => by
      rw [hr, List.append_nil] at hs
      exact hs
    rw [List.append_assoc, Piece.read_takes htakes' hok, Piece.evalAll_append, hmid, ok_bind]
    exact ih (hs.of_append (htakes.endsEscaping hne))

/-- A quotation that is open is closed before the end. -/
theorem quote_mem (h : Reads scope split q s fields fields') {sawList : Bool}
    (hq : q = .quoted sawList) : '"' ∈ s := by
  induction h generalizing sawList with
  | done => cases hq
  | step htakes _ _ _ ih =>
    subst hq
    rw [List.mem_append]
    cases htakes with
    | quote => exact .inl (.head _)
    | single hq => cases hq
    | joined | escaped _ | backslash | plain _ _ _ _ _ | dollar _ => exact .inr (ih rfl)

end Reads

theorem mem_of_append_concat_eq {α : Type} {l m r : List α} {a : α} (h : l ++ [a] = m ++ r)
    (hr : r ≠ []) : a ∈ r := by
  rcases List.eq_nil_or_concat r with rfl | ⟨r, b, rfl⟩
  · exact absurd rfl hr
  · have hlast := congrArg List.getLast? h
    rw [List.concat_eq_append, ← List.append_assoc, List.getLast?_concat, List.getLast?_concat,
      Option.some.injEq] at hlast
    simp [hlast]

/-- The dollar sign of an unescaped name never stands within a step, unless as `$$`. -/
theorem Quoting.Takes.special_of_dollar {q q' : Quoting} {c : Char} {s rest name : Text}
    {lexeme : Lexeme} (h : q.Takes (c :: s ++ '$' :: name) rest lexeme q')
    (hs : Text.endsEscaping (c :: s) = false) (hname : ∀ d ∈ name, Text.isNameChar d = true) :
    lexeme = .reference (.value ['$']) := by
  have hlast : ∀ {l : Text} {d : Char}, Text.isNameChar d = false → d ≠ '$' →
      l ++ [d] ≠ c :: s ++ '$' :: name := by
    intro l d hd hne heq
    rcases List.mem_cons.1 (mem_of_append_concat_eq heq (by simp)) with rfl | hmem
    · exact hne rfl
    · rw [hname d hmem] at hd
      cases hd
  generalize htaken : c :: s ++ '$' :: name = taken at h hlast
  cases h with
  | joined =>
    simp only [List.cons_append, List.cons.injEq] at htaken
    rcases List.append_eq_singleton_iff.1 htaken.2 with ⟨rfl, he⟩ | ⟨rfl, he⟩ <;> simp at he
  | escaped hc =>
    simp only [List.cons_append, List.cons.injEq] at htaken
    obtain ⟨rfl, htaken⟩ := htaken
    rcases List.append_eq_singleton_iff.1 htaken with ⟨rfl, -⟩ | ⟨rfl, he⟩
    · cases hs
    · simp at he
  | backslash => simp at htaken
  | dollar h =>
    simp only [List.cons_append, List.cons.injEq] at htaken
    obtain ⟨rfl, htaken⟩ := htaken
    cases h with
    | sign => simp at htaken
    | @braces body =>
      exact absurd rfl (hlast (l := '$' :: '{' :: body) (by decide) (by decide))
    | name hn =>
      refine absurd ?_ (Text.notMem_of_isName hn (c := '$') (by decide))
      rw [← htaken]
      simp
    | special hc =>
      rcases List.append_eq_singleton_iff.1 htaken with ⟨-, he⟩ | ⟨-, he⟩
      · rw [List.cons.injEq] at he
        rw [← he.1]
        rfl
      · cases he
  | quote => simp at htaken
  | @single run => exact absurd rfl (hlast (l := '\'' :: run) (by decide) (by decide))
  | plain => simp at htaken

namespace Scope

/-- An unset or set variable is the value of its name. -/
theorem emitValue_of_isName (scope : Scope) (split quoted : Bool) {name : Text}
    (hname : Text.isName name = true) (fields : Fields) :
    scope.emitValue split quoted name fields =
      scope.emit split quoted (scope.value? name) fields := by
  have hne : ∀ c, Text.isNameStart c = false → name ≠ [c] := by
    rintro c hc rfl
    simp [Text.isName, hc] at hname
  rw [emitValue, if_neg (hne '#' (by decide)), if_neg fun h => hne '*' (by decide) h.1, lookup,
    if_pos hname]
  rfl

/-- A value that is not split is added as it is, in a state that can split values at all. -/
theorem emit_eq_ok {scope : Scope} {value : Option Text} {fields fields' : Fields}
    (h : scope.emit false false value fields = .ok fields') :
    fields'.current = fields.current ++ value.getD [] ∧
      (value ≠ none → scope.separators.isOk = true) := by
  cases value with
  | none =>
    cases h
    simp
  | some value =>
    simp only [emit, Bool.false_eq_true, if_false] at h
    split at h
    · cases h
    · obtain ⟨separators, hs, h⟩ := bind_eq_ok.1 h
      cases h
      exact ⟨rfl, fun _ => isOk_iff.2 ⟨separators, hs⟩⟩

end Scope

namespace Reads

variable {scope : Scope} {split : Bool} {q : Quoting} {s : Text} {fields fields' : Fields}

/-- A name without braces reaches as far as name characters do. -/
theorem evalAll_name {name t : Text} (hname : Text.isName name = true)
    (ht : t.Avoids Text.isNameChar) (fields : Fields) :
    Piece.evalAll scope split (Piece.read .bare ('$' :: name ++ t)) fields =
      scope.emit split false (scope.value? name) fields >>=
        Piece.evalAll scope split (Piece.read .bare t) := by
  have htakes : Quoting.bare.Takes ('$' :: name) t (.reference (.value name)) .bare :=
    .dollar (.name hname ht)
  rw [Piece.read_takes htakes (by simp), Piece.evalAll_append]
  show (Piece.evalAll scope split [.value false name] fields >>= _) = _
  rw [Piece.evalAll, Piece.eval, scope.emitValue_of_isName split false hname]
  rcases scope.emit split false (scope.value? name) fields with e | mid <;> rfl

/-- **A text that ends in a parameter name is cut in front of it.** What stands before adds the
same fields whatever follows the name. -/
theorem cut_name {before name : Text}
    (h : Reads scope split q (before ++ '$' :: name) fields fields')
    (hbefore : before.endsEscaping = false) (hname : Text.isName name = true) (hq : q.IsTop) :
    ∃ mid, Reads scope split .bare ('$' :: name) mid fields' ∧
      ∀ t, Piece.evalAll scope split (Piece.read q (before ++ '$' :: name ++ t)) fields =
        Piece.evalAll scope split (Piece.read .bare ('$' :: name ++ t)) mid := by
  generalize hs : before ++ '$' :: name = s at h
  induction h generalizing before with
  | done => simp at hs
  | @step q q' c taken rest lexeme fields mid fields' htakes hok hmid hrest ih =>
    have hcases : (∃ w, before = c :: taken ++ w ∧ rest = w ++ '$' :: name) ∨
        ∃ w, c :: taken = before ++ '$' :: w ∧ name = w ++ rest := by
      rcases List.append_eq_append_iff.1 hs with ⟨w, htaken, hw⟩ | h
      · cases w with
        | nil => exact .inl ⟨[], by simpa using htaken.symm, by simpa using hw.symm⟩
        | cons d w =>
          rw [List.cons_append, List.cons.injEq] at hw
          obtain ⟨rfl, hw⟩ := hw
          exact .inr ⟨w, htaken, hw⟩
      · exact .inl h
    rcases hcases with ⟨w, rfl, rfl⟩ | ⟨w, htaken, rfl⟩
    · -- the step is over before the name
      have hne : c :: taken ≠ ['\\'] := by
        intro he
        rw [he] at htakes
        simpa using htakes.rest_of_backslash
      rw [Text.endsEscaping_append (htakes.endsEscaping hne)] at hbefore
      obtain ⟨cut, hcut, heval⟩ := ih hbefore (htakes.isTop hq) rfl
      refine ⟨cut, hcut, fun t => ?_⟩
      have htakes' := htakes.extend (t := t) fun hr => by simp at hr
      simp only [List.append_assoc] at heval htakes' ⊢
      rw [Piece.read_takes htakes' hok, Piece.evalAll_append, hmid, ok_bind]
      exact heval t
    · cases before with
      | nil =>
        rw [List.nil_append, List.cons.injEq] at htaken
        obtain ⟨rfl, rfl⟩ := htaken
        have hread := Reads.step htakes hok hmid hrest
        cases q with
        | bare => exact ⟨fields, hread, fun t => rfl⟩
        | quoted sawList =>
          have hmem := hread.quote_mem rfl
          rw [List.cons_append, List.mem_cons] at hmem
          rcases hmem with hmem | hmem
          · cases hmem
          · exact absurd hmem (Text.notMem_of_isName hname (by decide))
        | nested | document => exact hq.elim
      | cons b before =>
        -- only `$$` takes a second dollar sign, and it has no value
        have hw : ∀ d ∈ w, Text.isNameChar d = true := fun d hd =>
          Text.isNameChar_of_mem hname (List.mem_append_left _ hd)
        rw [htaken] at htakes
        rw [htakes.special_of_dollar hbefore hw] at hmid
        cases q <;> cases hmid

end Reads

end ShellFold
