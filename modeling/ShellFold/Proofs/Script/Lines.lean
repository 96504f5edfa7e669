import Mathlib.Data.List.ReduceOption
import Mathlib.Data.List.TakeWhile
import ShellFold.Proofs.Session.Readonly

/-!
# Files of statements and comments

A file of lines is cut into statements before anything is known of comments, so a quotation that a
comment leaves open takes the lines behind it along. `Text.quotes` is what a text leaves open: where
that is nothing for each comment, the cut yields the lines of the file (`Script.Line.cut`), and they
are carried out as the statements they hold. `Builtin.source_lines_iff` says that a file of lines is
carried out faithfully, whatever else it holds, just if its comments leave nothing open.
-/

set_option autoImplicit false

namespace ShellFold

/-! ## What a text leaves open -/

/-- The quotation that is open in a script, and whether a backslash hides the next character. -/
structure Quotes where
  quotation : Option Char := none
  escaped : Bool := false
  deriving DecidableEq, Repr

namespace Quotes

/-- What is open behind a character. -/
def after (q : Quotes) (c : Char) : Quotes :=
  if q.escaped then { q with escaped := false }
  else if q.quotation = some '\'' then if c = '\'' then {} else q
  else if c = '\\' then { q with escaped := true }
  else if q.quotation = some c then {}
  else if q.quotation = none ∧ (c = '\'' ∨ c = '"') then { quotation := some c }
  else q

/-- A quotation is one in single or in double quotes. -/
theorem quotation_after {q : Quotes} (h : q.quotation ∈ [none, some '\'', some '"']) (c : Char) :
    (q.after c).quotation ∈ [none, some '\'', some '"'] := by
  unfold after
  split_ifs with _ _ _ _ _ hopen
  · exact h
  · exact .head _
  · exact h
  · exact h
  · exact .head _
  · rcases hopen.2 with rfl | rfl <;> decide
  · exact h

end Quotes

namespace Text

/-- What a text leaves open for what stands behind it. -/
def quotes (s : Text) : Quotes := s.foldl Quotes.after {}

theorem quotation_quotes (s : Text) : s.quotes.quotation ∈ [none, some '\'', some '"'] := by
  have hfrom : ∀ q : Quotes, q.quotation ∈ [none, some '\'', some '"'] →
      (s.foldl Quotes.after q).quotation ∈ [none, some '\'', some '"'] := by
    induction s with
    | nil => exact fun _ h => h
    | cons c s ih => exact fun q h => ih _ (q.quotation_after h c)
  exact hfrom {} (.head _)

/-! ## Cutting a file -/

/-- A statement ends at a newline behind which nothing is open, and at no other character. -/
theorem statementsFrom_after (current : Text) {q : Quotes} {c : Char} (h : ¬(q = {} ∧ c = '\n'))
    (rest : Text) :
    statementsFrom current q.quotation q.escaped (c :: rest) =
      statementsFrom (current ++ [c]) (q.after c).quotation (q.after c).escaped rest := by
  obtain ⟨quotation, escaped⟩ := q
  simp only [statementsFrom, Quotes.after]
  split_ifs <;> simp_all

theorem statementsFrom_newline (current rest : Text) :
    statementsFrom current none false ('\n' :: rest) =
      current :: statementsFrom [] none false rest :=
  rfl

theorem statementsFrom_line {line : Text} (h : '\n' ∉ line) (current : Text) (q : Quotes)
    (rest : Text) :
    statementsFrom current q.quotation q.escaped (line ++ rest) =
      statementsFrom (current ++ line) (line.foldl Quotes.after q).quotation
        (line.foldl Quotes.after q).escaped rest := by
  induction line generalizing current q with
  | nil => rw [List.append_nil]; rfl
  | cons c line ih =>
    rw [List.mem_cons, not_or] at h
    rw [List.cons_append, statementsFrom_after _ fun hc => h.1 hc.2.symm, ih h.2, List.append_assoc]
    rfl

/-- A newline at the end of a script ends its last statement, or is part of it. -/
theorem statementsFrom_concat_newline (s current : Text) (q : Quotes) :
    statementsFrom current q.quotation q.escaped (s ++ ['\n']) =
        statementsFrom current q.quotation q.escaped s ++ [[]] ∨
      ∃ front last, statementsFrom current q.quotation q.escaped (s ++ ['\n']) =
        front ++ [last ++ ['\n']] := by
  induction s generalizing current q with
  | nil =>
    by_cases hq : q = {}
    · subst hq
      exact .inl rfl
    · refine .inr ⟨[], current, ?_⟩
      rw [List.nil_append, statementsFrom_after _ fun h => hq h.1]
      rfl
  | cons c s ih =>
    rw [List.cons_append]
    by_cases hc : q = {} ∧ c = '\n'
    · obtain ⟨rfl, rfl⟩ := hc
      rw [statementsFrom_newline, statementsFrom_newline]
      rcases ih [] {} with h | ⟨front, last, h⟩
      · exact .inl (by rw [h]; rfl)
      · exact .inr ⟨current :: front, last, by rw [h]; rfl⟩
    · rw [statementsFrom_after _ hc, statementsFrom_after _ hc]
      exact ih _ _

theorem isCut_of_quotes {line : Text} (hline : '\n' ∉ line) (h : line.quotes = {}) :
    line.IsCut := by
  intro rest
  have hcut := statementsFrom_line hline [] {} ('\n' :: rest)
  rw [show line.foldl Quotes.after {} = {} from h] at hcut
  exact hcut

/-- Blanks leave nothing open. -/
theorem quotes_of_isBlank {s : Text} (h : ∀ c ∈ s, isBlank c = true) : s.quotes = {} := by
  induction s with
  | nil => rfl
  | cons c s ih =>
    rw [List.forall_mem_cons] at h
    have hc := notMem_of_kind h.1 (l := ['\'', '"', '\\']) (by decide)
    simp only [List.mem_cons, List.not_mem_nil, or_false, not_or] at hc
    have hafter : Quotes.after {} c = {} := by simp [Quotes.after, hc]
    rw [quotes, List.foldl_cons, hafter]
    exact ih h.2

/-! ## Blanks and comments -/

theorem trim_of_isBlank {s : Text} (h : ∀ c ∈ s, isBlank c = true) : s.trim = [] := by
  rw [trim, List.dropWhile_eq_nil_iff.2 h]
  rfl

theorem head?_trim {c : Char} (hc : isBlank c = false) (s : Text) :
    (trim (c :: s)).head? = some c := by
  rw [trim, List.dropWhile_cons_of_neg (by simp [hc]), List.reverse_cons, List.dropWhile_append]
  split
  · rw [List.dropWhile_cons_of_neg (by simp [hc])]
    rfl
  · rw [List.reverse_append]
    rfl

end Text

/-- A line of a file, and the statement it holds, if any. What stands behind the sign of a comment
is of the given kind. -/
inductive Script.Line (Comment : Text → Prop) : Text → Option Statement → Prop
  | blank {line : Text} : (∀ c ∈ line, Text.isBlank c = true) → '\n' ∉ line → Line Comment line none
  | comment {text : Text} : '\n' ∉ text → Comment text → Line Comment ('#' :: text) none
  | statement {statement : Statement} {line : Text} :
      statement.render = .ok line → Line Comment line (some statement)

/-- The comment leaves nothing open for the lines behind it. -/
def Text.ClosesQuotes (text : Text) : Prop := quotes ('#' :: text) = {}

namespace Variables

theorem applyLine_blank {line : Text} (h : ∀ c ∈ line, Text.isBlank c = true) :
    applyLine line = pure () := by
  rw [applyLine, Text.trim_of_isBlank h, if_pos (.inl rfl)]

theorem applyLine_comment (text : Text) : applyLine ('#' :: text) = pure () := by
  rw [applyLine, if_pos (.inr (Text.head?_trim (by decide) text))]

end Variables

namespace Script

variable {Comment : Text → Prop} {line : Text} {held : Option Statement} {lines : List Text}
  {helds : List (Option Statement)}

/-- A line is cut behind its end and nowhere else, if comments leave nothing open. -/
theorem Line.isCut (hclosed : ∀ text, Comment text → '\n' ∉ text → text.ClosesQuotes)
    (h : Line Comment line held) : line.IsCut := by
  cases h with
  | blank hblank hline => exact Text.isCut_of_quotes hline (Text.quotes_of_isBlank hblank)
  | comment hline htext =>
    refine Text.isCut_of_quotes ?_ (hclosed _ htext hline)
    rw [List.mem_cons, not_or]
    exact ⟨by decide, hline⟩
  | statement hline => exact Statement.isCut_render hline

theorem Line.applyLine (h : Line Comment line held) :
    Variables.applyLine line = forM held.toList Statement.apply := by
  cases h with
  | blank hblank => exact Variables.applyLine_blank hblank
  | comment => exact Variables.applyLine_comment _
  | statement hline =>
    rw [Variables.applyLine_render hline]
    exact (bind_pure _).symm

/-- The lines of a file are cut, and carried out as the statements they hold. -/
theorem lines_spec (hclosed : ∀ text, Comment text → '\n' ∉ text → text.ClosesQuotes)
    (h : List.Forall₂ (Line Comment) lines helds) :
    (∀ line ∈ lines, line.IsCut) ∧
      forM lines Variables.applyLine = forM helds.reduceOption Statement.apply := by
  induction h with
  | nil => exact ⟨nofun, rfl⟩
  | @cons line held lines helds hline _ ih =>
    refine ⟨List.forall_mem_cons.2 ⟨hline.isCut hclosed, ih.1⟩, ?_⟩
    have hheld : (held :: helds).reduceOption = held.toList ++ helds.reduceOption := by
      cases held <;> rfl
    rw [List.forM_cons, hline.applyLine, ih.2, hheld, List.forM_append]

/-- **A file is carried out as the statements of its lines**, if comments leave nothing open. The
last line need not be ended. -/
theorem applyScript_lines (hclosed : ∀ text, Comment text → '\n' ∉ text → text.ClosesQuotes)
    {content : Text} (h : List.Forall₂ (Line Comment) lines helds)
    (hcontent : content = Journal.fileOf lines ∨ content ++ ['\n'] = Journal.fileOf lines) :
    Variables.applyScript content = forM helds.reduceOption Statement.apply := by
  obtain ⟨hcut, happly⟩ := lines_spec hclosed h
  rw [← happly]
  rcases hcontent with rfl | hcontent
  · exact Variables.applyScript_cut hcut
  · have hstatements := Journal.statements_fileOf hcut
    rw [← hcontent] at hstatements
    have hlines : content.statements = lines := by
      rcases content.statementsFrom_concat_newline [] {} with hends | ⟨front, last, hends⟩
      · exact List.append_cancel_right (hends.symm.trans hstatements)
      · have hlast := congrArg List.getLast? (hends.symm.trans hstatements)
        simp at hlast
    rw [Variables.applyScript, hlines]
    rfl

end Script

/-! ## Statements that succeed -/

namespace Statement

/-- No variable is assigned to behind the statement that makes it readonly. -/
def Unlocked (statements : List Statement) : Prop :=
  statements.Pairwise fun first later =>
    ∀ name value, first = .readonly name → later ≠ .assign name value

variable {statement : Statement} {vars : Variables}

/-- A statement that can be written succeeds, unless it assigns to a readonly variable. -/
theorem exists_apply (hrender : statement.render.isOk = true)
    (hreadonly : ∀ name value, statement = .assign name value → vars.isReadonly name = false) :
    ∃ after, statement.apply.outcome vars = (.ok (), after) := by
  obtain ⟨line, hline⟩ := isOk_iff.1 hrender
  rcases render_eq_ok hline with
    ⟨name, value, source, rfl, hname, -⟩ | ⟨name, rfl, hname, -⟩ | ⟨name, rfl, hname, -⟩
  · exact ⟨_, Variables.outcome_assign hname (hreadonly name value rfl) value⟩
  · exact ⟨_, Variables.outcome_mark hname .exported vars⟩
  · exact ⟨_, Variables.outcome_mark hname .readonly vars⟩

theorem exists_forM_apply {statements : List Statement} (vars : Variables)
    (hrender : ∀ statement ∈ statements, statement.render.isOk = true)
    (hunlocked : Unlocked statements)
    (hreadonly : ∀ name value, .assign name value ∈ statements → vars.isReadonly name = false) :
    ∃ after, (forM statements apply).outcome vars = (.ok (), after) := by
  induction statements generalizing vars with
  | nil => exact ⟨vars, rfl⟩
  | cons statement statements ih =>
    obtain ⟨hfirst, hrest⟩ := List.pairwise_cons.1 hunlocked
    rw [List.forall_mem_cons] at hrender
    obtain ⟨mid, hmid⟩ := exists_apply hrender.1
      fun name value heq => hreadonly name value (heq ▸ .head _)
    obtain ⟨after, hafter⟩ := ih mid hrender.2 hrest fun name value hmem => by
      rw [Bool.eq_false_iff]
      intro hlocked
      rcases (isReadonly_apply hmid name).1 hlocked with hvars | heq
      · rw [hreadonly name value (.tail _ hmem)] at hvars
        cases hvars
      · exact hfirst _ hmem name value heq rfl
    exact ⟨after, (Attempt.outcome_bind_ok hmid).trans hafter⟩

end Statement

theorem Script.Line.isOk_render {Comment : Text → Prop} {lines : List Text}
    {helds : List (Option Statement)} (h : List.Forall₂ (Line Comment) lines helds) :
    ∀ statement ∈ helds.reduceOption, statement.render.isOk = true := by
  induction h with
  | nil => exact nofun
  | @cons line held lines helds hline _ ih =>
    cases hline with
    | blank => exact ih
    | comment => exact ih
    | statement hline =>
      rw [List.reduceOption_cons_of_some]
      exact List.forall_mem_cons.2 ⟨isOk_iff.2 ⟨_, hline⟩, ih⟩

namespace Text

/-- The line that an open comment takes along. -/
def taken : Text := ['a', '=', '1']

theorem statementsFrom_open (current : Text) {q : Quotes}
    (hquotation : q.quotation ∈ [none, some '\'', some '"']) (hopen : q ≠ {}) :
    ∃ more, statementsFrom current q.quotation q.escaped ('\n' :: (taken ++ ['\n'])) ∈
      [[current ++ more], [current ++ more, []]] := by
  obtain ⟨quotation, escaped⟩ := q
  simp only [List.mem_cons, List.not_mem_nil, or_false] at hquotation
  rcases hquotation with rfl | rfl | rfl
  · -- a backslash at the end of the comment hides the newline, and the line behind it is ended
    cases escaped with
    | false => exact absurd rfl hopen
    | true => exact ⟨'\n' :: taken, by simp [statementsFrom, taken]⟩
  · exact ⟨'\n' :: (taken ++ ['\n']), by cases escaped <;> simp [statementsFrom, taken]⟩
  · exact ⟨'\n' :: (taken ++ ['\n']), by cases escaped <;> simp [statementsFrom, taken]⟩

end Text

/-- A comment that leaves a quotation open takes the line behind it along. -/
theorem Variables.applyScript_open {text : Text} (htext : '\n' ∉ text)
    (hopen : ¬text.ClosesQuotes) :
    applyScript (Journal.fileOf ['#' :: text, Text.taken]) = pure () := by
  have hline : '\n' ∉ '#' :: text := by simp [htext]
  obtain ⟨more, hmore⟩ := Text.statementsFrom_open ('#' :: text)
    (Text.quotation_quotes ('#' :: text)) hopen
  have hstatements : (Journal.fileOf ['#' :: text, Text.taken]).statements =
      Text.statementsFrom ('#' :: text) (Text.quotes ('#' :: text)).quotation
        (Text.quotes ('#' :: text)).escaped ('\n' :: (Text.taken ++ ['\n'])) := by
    have hfile : Journal.fileOf ['#' :: text, Text.taken] =
        '#' :: text ++ '\n' :: (Text.taken ++ ['\n']) := by simp [Journal.fileOf]
    rw [hfile]
    exact Text.statementsFrom_line hline [] {} _
  rw [applyScript, hstatements]
  simp only [List.mem_cons, List.not_mem_nil, or_false] at hmore
  rcases hmore with h | h
  · rw [h, List.forM_eq_forM, List.forM_cons, List.cons_append, applyLine_comment]
    rfl
  · rw [h, List.forM_eq_forM, List.forM_cons, List.cons_append, applyLine_comment]
    rfl

/-- **The files that are carried out faithfully.** Take a file of blank lines, comments, and
statements as they are written out, none of which assigns to a variable behind the statement that
makes it readonly. In every state without readonly variables such a file is carried out as its
statements, one after the other, and succeeds; provided that the comments in it leave no quotation
open and end in no backslash. A comment that does otherwise spoils some such file. -/
theorem Builtin.source_lines_iff (Comment : Text → Prop) :
    (∀ (builtin : Builtin) (path content : Text) (lines : List Text)
      (helds : List (Option Statement)),
      List.Forall₂ (Script.Line Comment) lines helds →
      content = Journal.fileOf lines ∨ content ++ ['\n'] = Journal.fileOf lines →
      builtin.scope.vars.Writable → Statement.Unlocked helds.reduceOption →
      ∃ vars, (forM helds.reduceOption Statement.apply).outcome builtin.scope.vars =
          (.ok (), vars) ∧
        (Oracle.source ⟨path, some content⟩).outcome builtin =
          (.ok (), { builtin with scope := { builtin.scope with vars } })) ↔
    ∀ text, Comment text → '\n' ∉ text → text.ClosesQuotes := by
  constructor
  · intro h text htext hline
    by_contra hopen
    obtain ⟨vars, hvars, hsource⟩ := h {} [] _ ['#' :: text, Text.taken]
      [none, some (.assign ['a'] ['1'])]
      (.cons (.comment hline htext) (.cons (.statement rfl) .nil)) (.inl rfl) nofun
      (List.pairwise_singleton _ _)
    have happly : (Variables.applyScript (Journal.fileOf ['#' :: text, Text.taken])).outcome {} =
        (.ok (), {}) := by
      rw [Variables.applyScript_open hline hopen]
      rfl
    have hleft : (Oracle.source ⟨[], some (Journal.fileOf ['#' :: text, Text.taken])⟩).outcome
        ({} : Builtin) = (.ok (), {}) := Builtin.outcome_onVariables happly
    have hempty : ({} : Variables) = vars :=
      congrArg (fun outcome => outcome.2.scope.vars) (hleft.symm.trans hsource)
    have hvalue : ((forM [Statement.assign ['a'] ['1']] Statement.apply).outcome
        ({} : Variables)).2.value? ['a'] = some ['1'] := by decide
    have hset : vars.value? ['a'] = some ['1'] :=
      (congrArg (fun outcome => outcome.2.value? ['a']) hvars).symm.trans hvalue
    rw [← hempty] at hset
    cases hset
  · intro hclosed builtin path content lines helds hlines hcontent hwritable hunlocked
    obtain ⟨vars, hvars⟩ := Statement.exists_forM_apply builtin.scope.vars
      (Script.Line.isOk_render hlines) hunlocked fun name _ _ => hwritable.readonly_getOrNew name
    refine ⟨vars, hvars, ?_⟩
    rw [← Script.applyScript_lines hclosed hlines hcontent] at hvars
    exact Builtin.outcome_onVariables hvars

/-- The apostrophe of a comment takes the assignment behind it along. -/
example : (Oracle.source ⟨[], some "# it's\na=1\n".toList⟩).outcome ({} : Builtin) = (.ok (), {}) :=
  rfl

end ShellFold
