import ShellFold.Proofs.Interpreter.Received
import ShellFold.Proofs.Script

/-!
# Positional parameters of an interpreter

Parameters are handed to an interpreter as the words of a `set` command, each of them quoted, and
within a context the whole command is escaped once more. Both encodings are undone: the command is
read as `set`, `--` and the parameters (`tokens?_set`), and a line for a context is taken for this
command (`setPositional_writes`). A parameter that cannot be quoted is found before anything is
written.
-/

set_option autoImplicit false

namespace ShellFold

open Attempt

namespace Text

/-! ## A list of quoted words -/

/-- A character that neither separates nor begins a comment begins a word. -/
theorem tokensFrom_between {c : Char} (hseparator : isSeparator c = false) (hc : c ≠ '#')
    (rest : Text) : tokensFrom .between (c :: rest) = tokensFrom (.bare []) (c :: rest) := by
  rw [tokensFrom, tokensFrom, hseparator, if_neg Bool.false_ne_true, if_neg hc,
    if_neg Bool.false_ne_true]

/-- Where a word can begin, source that is not empty is read as the text it was written for. -/
theorem Written.tokensFrom_between {s t : Text} (h : Written s t) (ht : t ≠ []) (rest : Text) :
    tokensFrom .between (t ++ rest) = tokensFrom (.bare s) rest := by
  have hbegins : tokensFrom .between (t ++ rest) = tokensFrom (.bare []) (t ++ rest) := by
    cases h with
    | nil => exact absurd rfl ht
    | @bare c s t hc _ =>
      have hmem := notMem_of_kind hc (l := [' ', '\t', '\n', '#']) (by decide)
      simp only [List.mem_cons, List.not_mem_nil, or_false, not_or] at hmem
      exact Text.tokensFrom_between (by simp [isSeparator, hmem]) hmem.2.2.2 _
    | single | double => exact Text.tokensFrom_between (by decide) (by decide) _
  rw [hbegins, tokensFrom_written h, List.nil_append]

/-- Quoted words with a space between them are read as the words. -/
theorem tokensFrom_intercalate {values sources : List Text}
    (h : List.Forall₂ (fun value source => quote? value = some source) values sources) :
    tokensFrom .between ([' '].intercalate sources) = some values := by
  induction h with
  | nil => rfl
  | @cons value source values sources hsource hrest ih =>
    have hword := (written_of_quote? hsource).tokensFrom_between (ne_nil_of_quote? hsource)
    cases hrest with
    | nil =>
      rw [List.intercalate_singleton, ← List.append_nil source, hword]
      rfl
    | cons hnext hothers =>
      rw [List.intercalate_cons_cons, List.append_assoc, hword, List.singleton_append, tokensFrom,
        if_pos (by decide), ih, Option.map_some]

/-- The command that sets the parameters is read as its name, `--` and the parameters. -/
theorem tokens?_set {values sources : List Text}
    (h : List.Forall₂ (fun value source => quote? value = some source) values sources) :
    tokens? ("set -- ".toList ++ [' '].intercalate sources) =
      some ("set".toList :: "--".toList :: values) := by
  have hset (rest : Text) : tokens? ("set -- ".toList ++ rest) =
      ((tokensFrom .between rest).map ("--".toList :: ·)).map ("set".toList :: ·) := rfl
  rw [hset, tokensFrom_intercalate h]
  rfl

end Text

/-! ## Quoting all or none -/

theorem quoteLiteral_of_nul {value : Text} (h : '\x00' ∈ value) :
    quoteLiteral value = .error (.early (.unquotable value)) := by
  rw [quoteLiteral, (Text.quote?_eq_none_iff value).2 h]

theorem exists_mapM_quoteLiteral {values : List Text} (h : ∀ value ∈ values, '\x00' ∉ value) :
    ∃ sources, values.mapM quoteLiteral = .ok sources ∧
      List.Forall₂ (fun value source => Text.quote? value = some source) values sources := by
  induction values with
  | nil => exact ⟨[], rfl, .nil⟩
  | cons value values ih =>
    obtain ⟨hvalue, hvalues⟩ := List.forall_mem_cons.1 h
    obtain ⟨source, hsource⟩ := exists_quote? hvalue
    obtain ⟨sources, hsources, hquoted⟩ := ih hvalues
    refine ⟨source :: sources, ?_, .cons hsource hquoted⟩
    rw [List.mapM_cons, quoteLiteral_eq_ok.2 hsource, ok_bind, hsources]
    rfl

/-- The first text with a NUL stops the quoting. -/
theorem exists_mapM_quoteLiteral_error {values : List Text}
    (h : ∃ value ∈ values, '\x00' ∈ value) : ∃ value ∈ values, '\x00' ∈ value ∧
      values.mapM quoteLiteral = .error (.early (.unquotable value)) := by
  induction values with
  | nil =>
    obtain ⟨value, hvalue, -⟩ := h
    cases hvalue
  | cons value values ih =>
    rw [List.mapM_cons]
    by_cases hvalue : '\x00' ∈ value
    · exact ⟨value, .head _, hvalue, by rw [quoteLiteral_of_nul hvalue, error_bind]⟩
    · obtain ⟨source, hsource⟩ := exists_quote? hvalue
      obtain ⟨next, hnext, hnul, hstopped⟩ :=
        ih (((List.exists_mem_cons_iff _ _ _).1 h).resolve_left hvalue)
      refine ⟨next, .tail _ hnext, hnul, ?_⟩
      rw [quoteLiteral_eq_ok.2 hsource, ok_bind, hstopped, error_bind]

namespace Interpreter

/-! ## Setting the parameters -/

/-- **Parameters reach an interpreter unaltered at any depth.** There is one command whose words
are `set`, `--` and the parameters; outside contexts it is what is written, and within them a single
line is written of which the loop of the context makes that command. A parameter with a NUL is
refused, and nothing is written. -/
theorem setPositional_writes (values : List Text) :
    ((∀ value ∈ values, '\x00' ∉ value) →
      ∃ command : Text, command.tokens? = some ("set".toList :: "--".toList :: values) ∧
        ∀ it : Interpreter, it.poisoned = false →
          ∃ line, ((setPositional values).outcome it).2.sent = it.sent ++ [{ line := line }] ∧
            (it.depth = 0 → line = command) ∧
            (0 < it.depth → '\n' ∉ line ∧ Probe.unescape line = command)) ∧
    ((∃ value ∈ values, '\x00' ∈ value) →
      ∃ value ∈ values, '\x00' ∈ value ∧ ∀ it : Interpreter,
        (setPositional values).outcome it = (.error (.early (.unquotable value)), it)) := by
  constructor
  · intro hvalues
    obtain ⟨sources, hsources, hquoted⟩ := exists_mapM_quoteLiteral hvalues
    let command : Text := "set -- ".toList ++ [' '].intercalate sources
    refine ⟨command, Text.tokens?_set hquoted, fun it hsound => ⟨it.line command, ?_, ?_, ?_⟩⟩
    · have hcommand : (Request.setPositional values).command it.depth = .ok (command, none) := by
        rw [Request.command, hsources]
        rfl
      have hsent := Request.sent_attempt hsound hcommand
      rwa [Request.attempt, outcome_bind_pure] at hsent
    · exact fun hzero => if_pos hzero
    · intro hdepth
      rw [line, if_neg (Nat.ne_of_gt hdepth)]
      exact ⟨Probe.newline_notMem_escape _, Probe.unescape_escape _⟩
  · intro hnul
    obtain ⟨value, hvalue, hmem, hstopped⟩ := exists_mapM_quoteLiteral_error hnul
    refine ⟨value, hvalue, hmem, fun it => ?_⟩
    rw [setPositional, hstopped]
    rfl

/-- Parameters with quotes, blanks, backslashes and newlines, one of them empty, are set in a
context; with a NUL among them nothing is written. -/
theorem setPositional_writes_of_newline :
    let values : List Text := ["it's $5".toList, [], "a\\nb\n".toList]
    let it : Interpreter :=
      { sentinel := ">".toList, timeout := 0, terminal := some { unread := [62] }, depth := 2 }
    (∃ line, ((setPositional values).outcome it).2.sent = [{ line := line }] ∧ '\n' ∉ line ∧
      (Probe.unescape line).tokens? = some ("set".toList :: "--".toList :: values)) ∧
    ∃ cause, (setPositional (values ++ [['\x00']])).outcome it = (.error (.early cause), it) := by
  intro values it
  obtain ⟨command, htokens, hwrites⟩ := (setPositional_writes values).1 (by decide)
  obtain ⟨line, hsent, -, hline⟩ := hwrites it rfl
  obtain ⟨hnewline, hcommand⟩ := hline (by decide)
  obtain ⟨value, -, -, hrefused⟩ := (setPositional_writes (values ++ [['\x00']])).2
    ⟨['\x00'], by simp, by simp⟩
  exact ⟨⟨line, hsent, hnewline, by rw [hcommand, htokens]⟩, _, hrefused it⟩

end Interpreter

end ShellFold
