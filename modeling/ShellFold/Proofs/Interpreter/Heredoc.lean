import ShellFold.Proofs.Interpreter.Framing
import ShellFold.Proofs.Interpreter.Received

/-!
# The extent of a here-document

A here-document ends at the first line that is the delimiter, and a shell joins lines before it
looks for that line: one that ends in an odd number of backslashes goes on in the next
(`Text.joinRows`). A body is refused for a line of its own that is the delimiter, which is not
enough where its lines are joined: two of them may spell the delimiter, and the last one may take
the delimiter behind it along. There is nothing else that goes wrong
(`cutAt?_printing_iff`, `expandHeredoc_contains_iff`).
-/

set_option autoImplicit false

namespace ShellFold

open Attempt

namespace Text

/-! ## Lines as a shell reads them -/

/-- The lines of a text as they are written: each ends at a newline or at the end of the text. -/
def rows : Text → List Text
  | [] => []
  | c :: rest =>
    if c = '\n' then [] :: rows rest
    else
      match rows rest with
      | [] => [[c]]
      | row :: others => (c :: row) :: others

/-- Whether a line goes on in the next one: it ends in an odd number of backslashes. -/
def goesOn (row : Text) : Bool := (row.reverse.takeWhile (· = '\\')).length % 2 = 1

/-- Joins every line that goes on, without its last backslash, with the next one. -/
def joinRows : List Text → List Text
  | [] => []
  | row :: rows =>
    if row.goesOn then
      match joinRows rows with
      | [] => [row.dropLast]
      | next :: others => (row.dropLast ++ next) :: others
    else row :: joinRows rows

/-- The lines of a text as a shell compares them with a delimiter. -/
def logicalLines (s : Text) : List Text := joinRows s.rows

/-- What stands behind the first line of a text. -/
def behindFirstLine (s : Text) : Text := (s.dropWhile (· ≠ '\n')).tail

/-! ## Lines of texts put together -/

variable {row s t : Text}

theorem rows_ne_nil (h : s ≠ []) : rows s ≠ [] := by
  cases s with
  | nil => exact absurd rfl h
  | cons c s =>
    rw [rows]
    split
    · exact List.cons_ne_nil _ _
    · split
      · exact List.cons_ne_nil _ _
      · exact List.cons_ne_nil _ _

theorem rows_newline (s : Text) : rows ('\n' :: s) = [] :: rows s := by
  rw [rows, if_pos rfl]

theorem rows_of_notMem (h : '\n' ∉ row) (hne : row ≠ []) : rows row = [row] := by
  induction row with
  | nil => exact absurd rfl hne
  | cons c row ih =>
    rw [List.mem_cons, not_or] at h
    rw [rows, if_neg (Ne.symm h.1)]
    cases row with
    | nil => rfl
    | cons d row => rw [ih h.2 (List.cons_ne_nil _ _)]

theorem rows_append_newline (h : '\n' ∉ row) (s : Text) :
    rows (row ++ '\n' :: s) = row :: rows s := by
  induction row with
  | nil => exact rows_newline s
  | cons c row ih =>
    rw [List.mem_cons, not_or] at h
    rw [List.cons_append, rows, if_neg (Ne.symm h.1), ih h.2]

/-- Behind a newline, or where nothing stands in front, a new line begins. -/
theorem rows_append (h : s = [] ∨ s.getLast? = some '\n') (t : Text) :
    rows (s ++ t) = rows s ++ rows t := by
  induction s with
  | nil => rfl
  | cons c s ih =>
    have hlast : (c :: s).getLast? = some '\n' := h.resolve_left (List.cons_ne_nil _ _)
    rw [List.cons_append, rows, rows]
    cases s with
    | nil =>
      have hc : c = '\n' := Option.some.inj hlast
      rw [if_pos hc, if_pos hc]
      rfl
    | cons d s =>
      rw [List.getLast?_cons_cons] at hlast
      rw [ih (.inr hlast)]
      split
      · rfl
      · cases hrows : rows (d :: s) with
        | nil => exact absurd hrows (rows_ne_nil (List.cons_ne_nil _ _))
        | cons row others => rfl

/-- A newline at the end of a text ends its last line and begins none. -/
theorem rows_concat_newline (hne : s ≠ []) (h : s.getLast? ≠ some '\n') :
    rows (s ++ ['\n']) = rows s := by
  induction s with
  | nil => exact absurd rfl hne
  | cons c s ih =>
    cases s with
    | nil =>
      rw [List.getLast?_singleton, ne_eq, Option.some_inj] at h
      have hc : '\n' ∉ [c] := fun hmem => h (List.mem_singleton.1 hmem).symm
      rw [rows_append_newline hc, rows_of_notMem hc (List.cons_ne_nil _ _)]
      rfl
    | cons d s =>
      rw [List.getLast?_cons_cons] at h
      rw [List.cons_append, rows, rows, ih (List.cons_ne_nil _ _) h]

theorem behindFirstLine_append (h : '\n' ∉ row) (s : Text) :
    behindFirstLine (row ++ '\n' :: s) = s := by
  rw [behindFirstLine, List.dropWhile_append_of_pos, List.dropWhile_cons_of_neg (by decide)]
  · rfl
  · exact fun c hc => decide_eq_true fun hnewline => h (hnewline ▸ hc)

/-- Lines that end in no carriage return are found by either way of cutting a text. -/
theorem mem_linesFrom (hreturn : row.getLast? ≠ some '\r') {line : Text} (hline : '\n' ∉ line)
    (h : row ∈ rows (line ++ s)) : row ∈ linesFrom line s := by
  induction s generalizing line with
  | nil =>
    rw [List.append_nil] at h
    rw [linesFrom]
    split
    · next hnil => rwa [hnil] at h
    · next hne => rwa [rows_of_notMem hline hne] at h
  | cons c s ih =>
    rw [linesFrom]
    split
    · next hc =>
      rw [hc, rows_append_newline hline] at h
      rcases List.mem_cons.1 h with rfl | h
      · rw [dropReturn, if_neg hreturn]
        exact .head _
      · exact .tail _ (ih List.not_mem_nil h)
    · next hc =>
      refine ih (fun hmem => ?_) (by rwa [List.append_assoc])
      rcases List.mem_append.1 hmem with hmem | hmem
      · exact hline hmem
      · exact hc (List.mem_singleton.1 hmem).symm

/-! ## Joining lines -/

theorem joinRows_of_forall {rows : List Text} (h : ∀ row ∈ rows, row.goesOn = false) :
    joinRows rows = rows := by
  induction rows with
  | nil => rfl
  | cons row rows ih =>
    obtain ⟨hrow, hrows⟩ := List.forall_mem_cons.1 h
    rw [joinRows, hrow, if_neg Bool.false_ne_true, ih hrows]

theorem length_joinRows_cons (row : Text) (rows : List Text) :
    (joinRows (row :: rows)).length =
      if row.goesOn then max 1 (joinRows rows).length else (joinRows rows).length + 1 := by
  rw [joinRows]
  split
  · split
    · next hrows => rw [hrows]; rfl
    · next hrows => rw [hrows]; simp
  · rfl

/-- Where the last line does not go on, what follows is joined by itself. -/
theorem joinRows_append {rows : List Text}
    (h : ∀ row, rows.getLast? = some row → row.goesOn = false) (more : List Text) :
    joinRows (rows ++ more) = joinRows rows ++ joinRows more := by
  induction rows with
  | nil => rfl
  | cons row rows ih =>
    rw [List.cons_append, joinRows, joinRows]
    cases rows with
    | nil =>
      rw [h row rfl, if_neg Bool.false_ne_true, if_neg Bool.false_ne_true]
      rfl
    | cons next rows =>
      rw [ih fun last hlast => h last (by rwa [List.getLast?_cons_cons])]
      split
      · cases hjoined : joinRows (next :: rows) with
        | nil =>
          have hlength := length_joinRows_cons next rows
          rw [hjoined, List.length_nil] at hlength
          split at hlength <;> omega
        | cons first others => rfl
      · rfl

/-- Where the last line goes on, one more line adds none. -/
theorem length_joinRows_concat {rows : List Text} {last : Text}
    (hlast : rows.getLast? = some last) (hgoesOn : last.goesOn = true) (row : Text) :
    (joinRows (rows ++ [row])).length = (joinRows rows).length := by
  induction rows with
  | nil => cases hlast
  | cons first rows ih =>
    rw [List.cons_append, length_joinRows_cons, length_joinRows_cons]
    cases rows with
    | nil =>
      obtain rfl : first = last := Option.some.inj hlast
      rw [if_pos hgoesOn, if_pos hgoesOn, List.nil_append, length_joinRows_cons]
      split <;> rfl
    | cons next rows =>
      rw [List.getLast?_cons_cons] at hlast
      rw [ih hlast]

end Text

/-! ## The first delimiter -/

theorem notMem_of_cutAt? {α : Type} [DecidableEq α] {a : α} {list before after : List α}
    (h : cutAt? [a] list = some (before, after)) : a ∉ before := by
  induction list generalizing before with
  | nil => cases h
  | cons b list ih =>
    rw [cutAt?] at h
    split at h
    · cases h
      exact List.not_mem_nil
    · next hhere =>
      obtain ⟨⟨front, rest⟩, hcut, heq⟩ := Option.map_eq_some_iff.1 h
      cases heq
      refine fun hmem => (List.mem_cons.1 hmem).elim (fun hab => hhere ?_) (ih hcut)
      rw [hab]
      exact List.prefix_append [b] list

namespace Probe

/-! ## The body in its probe -/

theorem padded_complete (body : Text) : padded body = [] ∨ (padded body).getLast? = some '\n' := by
  unfold padded needsNewline
  split
  · exact .inr List.getLast?_concat
  · next h =>
    simp only [Bool.and_eq_true, bne_iff_ne, ne_eq, not_and, not_not] at h
    exact Decidable.or_iff_not_imp_left.2 h

theorem rows_padded (body : Text) : (padded body).rows = body.rows := by
  unfold padded needsNewline
  split
  · next h =>
    simp only [Bool.and_eq_true, bne_iff_ne] at h
    exact Text.rows_concat_newline h.1 h.2
  · rfl

/-- Behind the first line of the probe stand the lines of the body and the delimiter. -/
theorem logicalLines_printing (body : Text) :
    (printing (padded body)).behindFirstLine.logicalLines =
      Text.joinRows (body.rows ++ [delimiter]) := by
  have hfirst : '\n' ∉ "cat <<".toList ++ delimiter := by decide
  have hdelimiter : delimiter.rows = [delimiter] := Text.rows_of_notMem (by decide) (by decide)
  have hprinting : printing (padded body) =
      ("cat <<".toList ++ delimiter) ++ '\n' :: (padded body ++ delimiter) :=
    List.append_assoc _ _ _
  rw [hprinting, Text.behindFirstLine_append hfirst, Text.logicalLines,
    Text.rows_append (padded_complete body), rows_padded, hdelimiter]

/-- The first line of the probe that is the delimiter is its last one, with the lines of the body
in front, exactly where no line of the body is the delimiter and the last one does not go on. -/
theorem cutAt?_printing_iff (body : Text) :
    cutAt? [delimiter] (printing (padded body)).behindFirstLine.logicalLines =
        some (body.logicalLines, []) ↔
      delimiter ∉ body.logicalLines ∧
        ∀ row, body.rows.getLast? = some row → row.goesOn = false := by
  rw [logicalLines_printing]
  constructor
  · intro h
    refine ⟨notMem_of_cutAt? h, fun row hrow => ?_⟩
    rw [← Bool.not_eq_true]
    intro hgoesOn
    have hlength := congrArg List.length (eq_of_cutAt? h)
    rw [Text.length_joinRows_concat hrow hgoesOn, List.append_nil, List.length_append,
      Text.logicalLines, List.length_singleton] at hlength
    omega
  · rintro ⟨hfree, hlast⟩
    have hdelimiter : Text.joinRows [delimiter] = [delimiter] :=
      Text.joinRows_of_forall (List.forall_mem_singleton.2 (by decide))
    have hinfix : ¬[delimiter] <:+: body.logicalLines ++ [delimiter].dropLast := by
      rw [List.dropLast_singleton, List.append_nil, List.singleton_infix_iff]
      exact hfree
    have hcut := cutAt?_append hinfix []
    rw [List.append_nil] at hcut
    rw [Text.joinRows_append hlast, hdelimiter]
    exact hcut

/-- Where no line goes on, the lines of an accepted body are compared one by one. -/
theorem notMem_logicalLines {body : Text} (haccepted : hasDelimiter body = false)
    (h : ∀ row ∈ body.rows, row.goesOn = false) : delimiter ∉ body.logicalLines := by
  rw [Text.logicalLines, Text.joinRows_of_forall h]
  intro hmem
  have hline : delimiter ∈ body.lines :=
    Text.mem_linesFrom (by decide) List.not_mem_nil (by rwa [List.nil_append])
  rw [hasDelimiter, List.contains_eq_mem, decide_eq_false_iff_not] at haccepted
  exact haccepted hline

end Probe

namespace Interpreter

/-- **When the probe for a here-document contains its body.** An accepted body is sent as the lines
of a here-document. The first of these that a shell takes for the delimiter is the last line of the
command, with the lines of the body in front of it, exactly where no joined line of the body is the
delimiter and its last line does not go on; this is so wherever no line of the body goes on. -/
theorem expandHeredoc_contains_iff {it : Interpreter} (hsound : it.poisoned = false) {body : Text}
    (haccepted : Probe.hasDelimiter body = false) :
    ∃ line, ((expandHeredoc body).outcome it).2.sent = it.sent ++ [{ line := line }] ∧
      (cutAt? [Probe.delimiter] (it.received line).behindFirstLine.logicalLines =
          some (body.logicalLines, []) ↔
        Probe.delimiter ∉ body.logicalLines ∧
          ∀ row, body.rows.getLast? = some row → row.goesOn = false) ∧
      ((∀ row ∈ body.rows, row.goesOn = false) →
        cutAt? [Probe.delimiter] (it.received line).behindFirstLine.logicalLines =
          some (body.rows, [])) := by
  have hcommand : (Request.expand body .heredoc).command it.depth =
      .ok (Probe.printing (Probe.padded body), none) := by
    rw [Request.command, haccepted, if_neg Bool.false_ne_true]
  have hsent := Request.sent_attempt hsound hcommand
  rw [Request.attempt, expand, outcome_bind_pure] at hsent
  refine ⟨_, hsent, ?_, fun hrows => ?_⟩
  · rw [received_line]
    exact Probe.cutAt?_printing_iff body
  · have hcut := (Probe.cutAt?_printing_iff body).2 ⟨Probe.notMem_logicalLines haccepted hrows,
      fun row hrow => hrows row (List.mem_of_getLast? hrow)⟩
    have hjoined : body.logicalLines = body.rows := Text.joinRows_of_forall hrows
    rwa [hjoined, ← received_line it (Probe.printing (Probe.padded body))] at hcut

/-- A line that goes on within the body is contained; two lines that spell the delimiter are
accepted and end the here-document, and a backslash at the end takes the delimiter along. -/
theorem expandHeredoc_contains_iff_of_backslash :
    let it : Interpreter :=
      { sentinel := ">".toList, timeout := 0, terminal := some { unread := [] } }
    let contains (body : Text) : Prop := ∀ line,
      ((expandHeredoc body).outcome it).2.sent = [{ line := line }] →
        cutAt? [Probe.delimiter] (it.received line).behindFirstLine.logicalLines =
          some (body.logicalLines, [])
    let inner := "a\\\nb".toList
    let split := "__SH_EXPAND_\\\nEOF__\nb\n".toList
    let last := "a\\".toList
    it.poisoned = false ∧ (Probe.hasDelimiter inner = false ∧ contains inner) ∧
      (Probe.hasDelimiter split = false ∧ ¬contains split) ∧
      Probe.hasDelimiter last = false ∧ ¬contains last := by
  intro it contains inner split last
  have hcontains {body : Text} (haccepted : Probe.hasDelimiter body = false) : contains body ↔
      Probe.delimiter ∉ body.logicalLines ∧
        ∀ row, body.rows.getLast? = some row → row.goesOn = false := by
    obtain ⟨line, hsent, hiff, -⟩ := @expandHeredoc_contains_iff it rfl _ haccepted
    refine ⟨fun h => hiff.1 (h line hsent), fun h line' hline' => ?_⟩
    rw [hsent] at hline'
    cases hline'
    exact hiff.2 h
  have hinner : Probe.hasDelimiter inner = false := by decide
  have hsplit : Probe.hasDelimiter split = false := by decide
  have hlast : Probe.hasDelimiter last = false := by decide
  refine ⟨rfl, ⟨hinner, (hcontains hinner).2 ⟨by decide, ?_⟩⟩, ⟨hsplit, fun h => ?_⟩, hlast,
    fun h => ?_⟩
  · rintro _ ⟨⟩
    decide
  · exact absurd ((hcontains hsplit).1 h).1 (by decide)
  · exact absurd (((hcontains hlast).1 h).2 _ rfl) (by decide)

end Interpreter

end ShellFold
