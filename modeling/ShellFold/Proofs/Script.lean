import Mathlib.Data.List.Forall2
import ShellFold.Journal
import ShellFold.Proofs.Attempt
import ShellFold.Proofs.Text.Written
import ShellFold.Proofs.Word
import ShellFold.Text.Blank

/-!
# Rendered scripts

A script of rendered statements is carried out as those statements (`applyScript_fileOf`): it is
cut into just the lines it was made of, since their newlines stand within quotes, and each line is
read as one word that spells the name and the value of an assignment.
-/

set_option autoImplicit false

namespace ShellFold

/-- What a statement does to a table. -/
def Statement.apply : Statement → Attempt Variables Unit
  | assign name value => Variables.assign name value
  | exported name => Variables.mark .exported name
  | readonly name => Variables.mark .readonly name

namespace Text

/-! ## Cutting a script -/

/-- Outside quotes, a character that neither quotes nor ends a statement is added to it. -/
theorem statementsFrom_cons {c : Char} (hc : c ∉ ['\'', '"', '\\', '\n']) (current rest : Text) :
    statementsFrom current none false (c :: rest) =
      statementsFrom (current ++ [c]) none false rest := by
  simp only [List.mem_cons, List.not_mem_nil, or_false, not_or] at hc
  simp [statementsFrom, hc]

theorem statementsFrom_append {run : Text} (h : ∀ c ∈ run, c ∉ ['\'', '"', '\\', '\n'])
    (current rest : Text) : statementsFrom current none false (run ++ rest) =
      statementsFrom (current ++ run) none false rest := by
  induction run generalizing current with
  | nil => simp
  | cons c run ih =>
    rw [List.forall_mem_cons] at h
    rw [List.cons_append, statementsFrom_cons h.1, ih h.2, List.append_assoc]
    rfl

theorem statementsFrom_single {run : Text} (h : '\'' ∉ run) (current rest : Text) :
    statementsFrom current (some '\'') false (run ++ '\'' :: rest) =
      statementsFrom (current ++ run ++ ['\'']) none false rest := by
  induction run generalizing current with
  | nil => simp [statementsFrom]
  | cons c run ih =>
    rw [List.mem_cons, not_or] at h
    simp [statementsFrom, Ne.symm h.1, ih h.2]

theorem statementsFrom_double (run current rest : Text) :
    statementsFrom current (some '"') false (run.flatMap Styles.escapeInDouble ++ '"' :: rest) =
      statementsFrom (current ++ run.flatMap Styles.escapeInDouble ++ ['"']) none false rest := by
  induction run generalizing current with
  | nil => simp [statementsFrom]
  | cons c run ih =>
    rw [List.flatMap_cons]
    by_cases hc : c = '"' ∨ c = '\\'
    · simp only [Styles.escapeInDouble, if_pos hc] at ih ⊢
      simp [statementsFrom, ih]
    · simp only [Styles.escapeInDouble, if_neg hc] at ih ⊢
      rw [not_or] at hc
      simp [statementsFrom, ih, hc, Ne.symm hc.1]

/-- Quoted source never ends a statement. -/
theorem statementsFrom_written {s t : Text} (h : Written s t) (current rest : Text) :
    statementsFrom current none false (t ++ rest) =
      statementsFrom (current ++ t) none false rest := by
  induction h generalizing current with
  | nil => simp
  | @bare c s t hc _ ih =>
    rw [List.cons_append, statementsFrom_cons (notMem_of_kind hc (by decide)), ih,
      List.append_assoc]
    rfl
  | @single run s t hr _ ih =>
    have hopen : ∀ u, statementsFrom current none false ('\'' :: u) =
        statementsFrom (current ++ ['\'']) (some '\'') false u := fun u => by simp [statementsFrom]
    have := statementsFrom_single (fun hmem => (hr _ hmem).1 rfl) (current ++ ['\'']) (t ++ rest)
    simp only [List.cons_append, List.append_assoc] at this ⊢
    rw [hopen, this, ih]
    simp
  | @double run s t hr _ ih =>
    have hopen : ∀ u, statementsFrom current none false ('"' :: u) =
        statementsFrom (current ++ ['"']) (some '"') false u := fun u => by simp [statementsFrom]
    have := statementsFrom_double run (current ++ ['"']) (t ++ rest)
    simp only [List.cons_append, List.append_assoc] at this ⊢
    rw [hopen, this, ih]
    simp

/-! ## Reading a statement -/

theorem tokensFrom_bare {c : Char} (hc : c ∉ [' ', '\t', '\n', '\'', '"', '\\'])
    (token rest : Text) :
    tokensFrom (.bare token) (c :: rest) = tokensFrom (.bare (token ++ [c])) rest := by
  simp only [List.mem_cons, List.not_mem_nil, or_false, not_or] at hc
  simp [tokensFrom, isSeparator, TokenPlace.within, hc]

theorem tokensFrom_append {run : Text} (h : ∀ c ∈ run, c ∉ [' ', '\t', '\n', '\'', '"', '\\'])
    (token rest : Text) :
    tokensFrom (.bare token) (run ++ rest) = tokensFrom (.bare (token ++ run)) rest := by
  induction run generalizing token with
  | nil => simp
  | cons c run ih =>
    rw [List.forall_mem_cons] at h
    rw [List.cons_append, tokensFrom_bare h.1, ih h.2, List.append_assoc]
    rfl

theorem tokensFrom_single {run : Text} (h : '\'' ∉ run) (token rest : Text) :
    tokensFrom (.single token) (run ++ '\'' :: rest) = tokensFrom (.bare (token ++ run)) rest := by
  induction run generalizing token with
  | nil => simp [tokensFrom]
  | cons c run ih =>
    rw [List.mem_cons, not_or] at h
    simp [tokensFrom, Ne.symm h.1, ih h.2]

theorem tokensFrom_double (run token rest : Text) :
    tokensFrom (.double token) (run.flatMap Styles.escapeInDouble ++ '"' :: rest) =
      tokensFrom (.bare (token ++ run)) rest := by
  induction run generalizing token with
  | nil => simp [tokensFrom]
  | cons c run ih =>
    rw [List.flatMap_cons]
    by_cases hc : c = '"' ∨ c = '\\'
    · simp only [Styles.escapeInDouble, if_pos hc]
      rcases hc with rfl | rfl <;> simp [tokensFrom, isEscapable, ih]
    · simp only [Styles.escapeInDouble, if_neg hc]
      rw [not_or] at hc
      simp [tokensFrom, ih, hc]

/-- Quoted source is read as the text it was written for, within one word. -/
theorem tokensFrom_written {s t : Text} (h : Written s t) (token rest : Text) :
    tokensFrom (.bare token) (t ++ rest) = tokensFrom (.bare (token ++ s)) rest := by
  induction h generalizing token with
  | nil => simp
  | @bare c s t hc _ ih =>
    rw [List.cons_append, tokensFrom_bare (notMem_of_kind hc (by decide)), ih, List.append_assoc]
    rfl
  | @single run s t hr _ ih =>
    have := tokensFrom_single (fun hmem => (hr _ hmem).1 rfl) token (t ++ rest)
    simpa [tokensFrom, isSeparator, TokenPlace.within, ih] using this
  | @double run s t hr _ ih =>
    have := tokensFrom_double run token (t ++ rest)
    simpa [tokensFrom, isSeparator, TokenPlace.within, ih] using this

/-! ## Blanks -/

theorem isBlank_of_toNat {c : Char} (h : 33 ≤ c.toNat ∧ c.toNat ≤ 126) : isBlank c = false := by
  rw [Bool.eq_false_iff]
  intro hblank
  obtain ⟨⟨low, high⟩, hmem, hrange⟩ := List.any_eq_true.1 hblank
  simp only [blankRanges, List.mem_cons, Prod.mk.injEq, List.not_mem_nil, or_false] at hmem
  simp only [Bool.and_eq_true, decide_eq_true_eq] at hrange
  omega

theorem isBlank_of_isNameChar {c : Char} (h : isNameChar c = true) : isBlank c = false := by
  simp only [isNameChar, Bool.or_eq_true, decide_eq_true_eq] at h
  rcases h with h | rfl
  · have := toNat_of_isAlphanum h
    exact isBlank_of_toNat (by omega)
  · decide

theorem isBlank_of_isBare {c : Char} (h : Styles.isBare c = true) : isBlank c = false := by
  simp only [Styles.isBare, Bool.or_eq_true, decide_eq_true_eq, List.mem_cons, List.not_mem_nil,
    or_false] at h
  rcases h with h | h
  · have := toNat_of_isAlphanum h
    exact isBlank_of_toNat (by omega)
  · rcases h with rfl | rfl | rfl | rfl | rfl | rfl | rfl | rfl <;> decide

theorem dropWhile_of_avoids {s : Text} (h : ∀ c, s.head? = some c → isBlank c = false) :
    s.dropWhile isBlank = s := by
  cases s with
  | nil => rfl
  | cons c s => rw [List.dropWhile_cons_of_neg (by simp [h c rfl])]

/-- No blank stands at the end of a text. -/
def EndsVisibly (s : Text) : Prop := ∀ c, s.getLast? = some c → isBlank c = false

/-- A text with no blank at its ends. -/
theorem trim_eq {s : Text} (hhead : ∀ c, s.head? = some c → isBlank c = false)
    (hlast : s.EndsVisibly) : s.trim = s := by
  rw [trim, dropWhile_of_avoids hhead, dropWhile_of_avoids, List.reverse_reverse]
  rw [List.head?_reverse]
  exact hlast

theorem EndsVisibly.append_cons {s : Text} (h : s.EndsVisibly) {c : Char} (hc : isBlank c = false)
    (front : Text) : EndsVisibly (front ++ c :: s) := by
  intro d hd
  rw [List.getLast?_append, List.getLast?_cons] at hd
  cases hlast : List.getLast? s with
  | none =>
    rw [hlast] at hd
    cases hd
    exact hc
  | some e =>
    rw [hlast] at hd
    cases hd
    exact h _ hlast

theorem Written.endsVisibly {s t : Text} (h : Written s t) : t.EndsVisibly := by
  induction h with
  | nil =>
    intro c hc
    cases hc
  | bare hc _ ih => exact ih.append_cons (isBlank_of_isBare hc) []
  | @single run _ _ _ _ ih => exact ih.append_cons (c := '\'') (by decide) ('\'' :: run)
  | double _ _ ih => exact ih.append_cons (c := '"') (by decide) ('"' :: _)

end Text

/-! ## Rendered statements -/

theorem checkName_eq_ok {name : Text} : checkName name = .ok () ↔ Text.isName name = true := by
  unfold checkName
  split <;> simp_all

theorem outcome_checkName {σ : Type} {name : Text} (h : Text.isName name = true) (s : σ) :
    (Attempt.ofExcept (checkName name)).outcome s = (.ok (), s) := by
  rw [Attempt.outcome_ofExcept, checkName_eq_ok.2 h]

namespace Statement

/-- The forms of a rendered statement. -/
theorem render_eq_ok {statement : Statement} {line : Text} (h : statement.render = .ok line) :
    (∃ name value source, statement = .assign name value ∧ Text.isName name = true ∧
      Text.quote? value = some source ∧ line = name ++ '=' :: source) ∨
    (∃ name, statement = .exported name ∧ Text.isName name = true ∧
      line = "export ".toList ++ name) ∨
    ∃ name, statement = .readonly name ∧ Text.isName name = true ∧
      line = "readonly ".toList ++ name := by
  cases statement with
  | assign name value =>
    obtain ⟨⟨⟩, hname, h⟩ := bind_eq_ok.1 h
    obtain ⟨source, hsource, h⟩ := bind_eq_ok.1 h
    cases h
    refine .inl ⟨name, value, source, rfl, checkName_eq_ok.1 hname, ?_, rfl⟩
    exact quoteLiteral_eq_ok.1 hsource
  | exported name =>
    obtain ⟨⟨⟩, hname, h⟩ := bind_eq_ok.1 h
    cases h
    exact .inr (.inl ⟨name, rfl, checkName_eq_ok.1 hname, rfl⟩)
  | readonly name =>
    obtain ⟨⟨⟩, hname, h⟩ := bind_eq_ok.1 h
    cases h
    exact .inr (.inr ⟨name, rfl, checkName_eq_ok.1 hname, rfl⟩)

variable {name : Text} (hname : Text.isName name = true)
include hname

theorem exists_render_assign {value : Text} (hvalue : '\x00' ∉ value) :
    ∃ line, (assign name value).render = .ok line := by
  obtain ⟨source, hsource⟩ := exists_quote? hvalue
  refine ⟨name ++ '=' :: source, ?_⟩
  rw [render, checkName_eq_ok.2 hname, quoteLiteral_eq_ok.2 hsource]
  rfl

theorem statementsFrom_name (current rest : Text) :
    Text.statementsFrom current none false (name ++ rest) =
      Text.statementsFrom (current ++ name) none false rest := by
  refine Text.statementsFrom_append (fun c hc => ?_) current rest
  exact Text.notMem_of_kind (Text.isNameChar_of_mem hname hc) (by decide)

theorem tokensFrom_name (token rest : Text) :
    Text.tokensFrom (.bare token) (name ++ rest) =
      Text.tokensFrom (.bare (token ++ name)) rest := by
  refine Text.tokensFrom_append (fun c hc => ?_) token rest
  exact Text.notMem_of_kind (Text.isNameChar_of_mem hname hc) (by decide)

theorem exists_cons_name : ∃ c rest, name = c :: rest ∧ Text.isNameChar c = true := by
  cases name with
  | nil => cases hname
  | cons c rest => exact ⟨c, rest, rfl, Text.isNameChar_of_mem hname (.head _)⟩

/-- A name begins a word. -/
theorem tokensFrom_between (rest : Text) :
    Text.tokensFrom .between (name ++ rest) = Text.tokensFrom (.bare name) rest := by
  rw [← List.nil_append name, ← tokensFrom_name hname]
  obtain ⟨c, name, rfl, hchar⟩ := exists_cons_name hname
  have hc := Text.notMem_of_kind hchar (l := [' ', '\t', '\n', '#']) (by decide)
  simp only [List.mem_cons, List.not_mem_nil, or_false, not_or] at hc
  simp [Text.tokensFrom, Text.isSeparator, hc]

theorem endsVisibly_name (front : Text) : Text.EndsVisibly (front ++ name) := by
  intro c hc
  obtain ⟨last, hlast⟩ := Option.isSome_iff_exists.1
    (List.getLast?_isSome.2 (show name ≠ [] by rintro rfl; cases hname))
  rw [List.getLast?_append, hlast] at hc
  cases hc
  exact Text.isBlank_of_isNameChar (Text.isNameChar_of_mem hname (List.mem_of_getLast? hlast))

omit hname in
theorem ofWord?_eq_none {head : Text} (h : '=' ∈ head) : Attribute.ofWord? head = none := by
  unfold Attribute.ofWord?
  rw [if_neg, if_neg]
  · rintro rfl
    exact absurd h (by decide)
  · rintro rfl
    exact absurd h (by decide)

theorem notMem_equals : '=' ∉ name := Text.notMem_of_isName hname (by decide)

/-- An assignment is one word, in which the name ends at the first equals sign. -/
theorem applyStatement_assign {value source : Text} (hsource : Text.quote? value = some source) :
    Variables.applyStatement (name ++ '=' :: source) = Variables.assign name value := by
  have hvalue : Text.tokensFrom (.bare name) ('=' :: source) =
      Text.tokensFrom (.bare (name ++ '=' :: value)) [] := by
    rw [Text.tokensFrom_bare (by decide), ← List.append_nil source,
      Text.tokensFrom_written (Text.written_of_quote? hsource), List.append_assoc]
    rfl
  have htokens : Text.tokens? (name ++ '=' :: source) = some [name ++ '=' :: value] := by
    rw [Text.tokens?, tokensFrom_between hname, hvalue]
    rfl
  have hnone : Attribute.ofWord? (name ++ '=' :: value) = none := ofWord?_eq_none (by simp)
  simp only [Variables.applyStatement, htokens, hnone,
    Text.splitOnce?_append (notMem_equals hname)]

/-- An attribute command with a name gives the attribute to the variable. -/
theorem applyStatement_of_tokens? {statement word : Text} {flag : Attribute}
    (htokens : statement.tokens? = some [word, name]) (hword : Attribute.ofWord? word = some flag) :
    Variables.applyStatement statement = Variables.mark flag name := by
  have hitem : Variables.markItem flag name = Variables.mark flag name := by
    rw [Variables.markItem, Text.splitOnce?_eq_none (notMem_equals hname)]
  simp only [Variables.applyStatement, htokens, hword, List.forM_eq_forM, List.forM_cons,
    List.forM_nil, hitem]
  exact bind_pure _

/-- An attribute command is two words. -/
theorem applyStatement_mark {word : Text} {flag : Attribute}
    (hword : (flag, word) ∈ [(.exported, "export".toList), (.readonly, "readonly".toList)]) :
    Variables.applyStatement (word ++ ' ' :: name) = Variables.mark flag name := by
  have hrest : Text.tokensFrom .between name = some [name] := by
    rw [← List.append_nil name, tokensFrom_between hname, List.append_nil]
    rfl
  have htokens : Text.tokens? (word ++ ' ' :: name) = some [word, name] := by
    have hword : Text.tokens? (word ++ ' ' :: name) =
        (Text.tokensFrom .between name).map (word :: ·) := by
      simp only [List.mem_cons, Prod.mk.injEq, List.not_mem_nil, or_false] at hword
      rcases hword with ⟨rfl, rfl⟩ | ⟨rfl, rfl⟩ <;> rfl
    rw [hword, hrest]
    rfl
  have hflag : Attribute.ofWord? word = some flag := by
    simp only [List.mem_cons, Prod.mk.injEq, List.not_mem_nil, or_false] at hword
    rcases hword with ⟨rfl, rfl⟩ | ⟨rfl, rfl⟩ <;> rfl
  exact applyStatement_of_tokens? hname htokens hflag

end Statement

namespace Variables

/-- A rendered statement is carried out as the statement. -/
theorem applyLine_render {statement : Statement} {line : Text}
    (h : statement.render = .ok line) : applyLine line = statement.apply := by
  have happly : applyStatement line = statement.apply ∧
      (∃ c rest, line = c :: rest ∧ Text.isNameChar c = true) ∧ line.EndsVisibly := by
    rcases Statement.render_eq_ok h with
      ⟨name, value, source, rfl, hname, hsource, rfl⟩ | ⟨name, rfl, hname, rfl⟩ |
      ⟨name, rfl, hname, rfl⟩
    · have hends := (Text.written_of_quote? hsource).endsVisibly
      refine ⟨Statement.applyStatement_assign hname hsource, ?_,
        hends.append_cons (by decide) name⟩
      obtain ⟨c, rest, rfl, hc⟩ := Statement.exists_cons_name hname
      exact ⟨c, _, rfl, hc⟩
    · exact ⟨Statement.applyStatement_mark hname (.head _), ⟨'e', _, rfl, by decide⟩,
        Statement.endsVisibly_name hname _⟩
    · exact ⟨Statement.applyStatement_mark hname (.tail _ (.head _)), ⟨'r', _, rfl, by decide⟩,
        Statement.endsVisibly_name hname _⟩
  obtain ⟨happly, ⟨c, rest, rfl, hc⟩, hends⟩ := happly
  have htrim : Text.trim (c :: rest) = c :: rest := by
    refine Text.trim_eq ?_ hends
    rintro _ ⟨⟩
    exact Text.isBlank_of_isNameChar hc
  rw [applyLine, htrim, if_neg, happly]
  rintro (h | h)
  · cases h
  · cases h
    cases hc

end Variables

/-! ## Rendered scripts -/

/-- The line is a statement of its own in every script that it begins. -/
def Text.IsCut (line : Text) : Prop :=
  ∀ rest, statementsFrom [] none false (line ++ '\n' :: rest) =
    line :: statementsFrom [] none false rest

namespace Statement

/-- A rendered statement does not end before the newline put behind it. -/
theorem isCut_render {statement : Statement} {line : Text} (h : statement.render = .ok line) :
    line.IsCut := by
  intro rest
  have hline : Text.statementsFrom [] none false (line ++ '\n' :: rest) =
      Text.statementsFrom line none false ('\n' :: rest) := by
    rcases render_eq_ok h with
      ⟨name, value, source, -, hname, hsource, rfl⟩ | ⟨name, -, hname, rfl⟩ | ⟨name, -, hname, rfl⟩
    · rw [List.append_assoc, statementsFrom_name hname, List.cons_append,
        Text.statementsFrom_cons (by decide),
        Text.statementsFrom_written (Text.written_of_quote? hsource)]
      simp
    · rw [List.append_assoc, Text.statementsFrom_append (by simp), statementsFrom_name hname]
      rfl
    · rw [List.append_assoc, Text.statementsFrom_append (by simp), statementsFrom_name hname]
      rfl
  rw [hline]
  simp [Text.statementsFrom]

end Statement

/-- A script is cut into the lines it was made of, and an empty one at the end. -/
theorem Journal.statements_fileOf {lines : List Text} (h : ∀ line ∈ lines, line.IsCut) :
    (fileOf lines).statements = lines ++ [[]] := by
  induction lines with
  | nil => rfl
  | cons line lines ih =>
    rw [List.forall_mem_cons] at h
    have hfile : fileOf (line :: lines) = line ++ '\n' :: fileOf lines := by simp [fileOf]
    rw [Text.statements, hfile, h.1]
    exact congrArg (line :: ·) (ih h.2)

/-- A script of lines that are cut is carried out line by line. -/
theorem Variables.applyScript_cut {lines : List Text} (h : ∀ line ∈ lines, line.IsCut) :
    applyScript (Journal.fileOf lines) = forM lines applyLine := by
  rw [applyScript, Journal.statements_fileOf h, List.forM_eq_forM, List.forM_append,
    List.forM_cons, List.forM_nil]
  exact bind_pure _

/-- The lines of a script are rendered statements. -/
def Journal.Renders (lines : List Text) : Prop :=
  ∀ line ∈ lines, ∃ statement : Statement, statement.render = .ok line

/-- A script of rendered statements is carried out line by line. -/
theorem Variables.applyScript_fileOf {lines : List Text} (h : Journal.Renders lines) :
    applyScript (Journal.fileOf lines) = forM lines applyLine :=
  applyScript_cut fun line hline => (h line hline).elim fun _ => Statement.isCut_render

/-- The lines are what the statements are written as. -/
def Statement.WrittenAs : List Statement → List Text → Prop :=
  List.Forall₂ fun statement line => statement.render = .ok line

namespace Statement.WrittenAs

variable {statements : List Statement} {lines : List Text}

theorem concat {statement : Statement} {line : Text} (h : WrittenAs statements lines)
    (hline : statement.render = .ok line) :
    WrittenAs (statements ++ [statement]) (lines ++ [line]) :=
  List.rel_append h (.cons hline .nil)

theorem forM_applyLine (h : WrittenAs statements lines) :
    forM lines Variables.applyLine = forM statements Statement.apply := by
  induction h with
  | nil => rfl
  | cons hline _ ih => rw [List.forM_cons, List.forM_cons, Variables.applyLine_render hline, ih]

theorem isOk_render (h : WrittenAs statements lines) :
    ∀ statement ∈ statements, statement.render.isOk = true := by
  induction h with
  | nil => exact nofun
  | cons hline _ ih => exact List.forall_mem_cons.2 ⟨isOk_iff.2 ⟨_, hline⟩, ih⟩

theorem renders (h : WrittenAs statements lines) : Journal.Renders lines := by
  induction h with
  | nil => exact nofun
  | cons hline _ ih => exact List.forall_mem_cons.2 ⟨⟨_, hline⟩, ih⟩

end Statement.WrittenAs

theorem Journal.Renders.exists_writtenAs {lines : List Text} (h : Renders lines) :
    ∃ statements, Statement.WrittenAs statements lines := by
  induction lines with
  | nil => exact ⟨[], .nil⟩
  | cons line lines ih =>
    rw [Renders, List.forall_mem_cons] at h
    obtain ⟨⟨statement, hline⟩, h⟩ := h
    obtain ⟨statements, hwritten⟩ := ih h
    exact ⟨statement :: statements, .cons hline hwritten⟩

/-- Statements are carried out in two parts. -/
theorem Statement.forM_apply_append {first second : List Statement} {vars mid last : Variables}
    (h : (forM first Statement.apply).outcome vars = (.ok (), mid))
    (h' : (forM second Statement.apply).outcome mid = (.ok (), last)) :
    (forM (first ++ second) Statement.apply).outcome vars = (.ok (), last) := by
  rw [List.forM_append, Attempt.outcome_bind_ok h, h']

end ShellFold
