import ShellFold.Proofs.Expansion.Paths
import ShellFold.Proofs.Resolve.Literal
import ShellFold.Proofs.Session.Equivalent
import ShellFold.Proofs.Session.Held

/-!
# Assignments of lists of paths

An assignment alone is resolved by finding its value and recording it. Where the value is a list of
paths, the home directory takes the place of a tilde at the front only, so that what is recorded is
the list in the home directory just if no other path begins there (`resolve_paths_iff`).
-/

set_option autoImplicit false

namespace ShellFold

/-- The command that is an assignment alone. -/
def Assignment.alone (lineNumber : Option UInt32) (a : Assignment) : Node :=
  .command ⟨lineNumber, [a], [], []⟩

/-- The assignment alone is resolved to one of the text, and the last of the statements that are
then pending makes it. -/
def Assignment.ResolvesTo (lineNumber : Option UInt32) (session : Session Builtin) (a : Assignment)
    (value : Text) : Prop :=
  ∃ word line after,
    (a.alone lineNumber).resolve.outcome session =
      (.ok (alone lineNumber { a with value := word }), after) ∧
    word.value = value ∧ (Statement.assign a.name value).render = .ok line ∧
    after.pending.getLast? = some line

section

variable {session mid after : Session Builtin} {builtin : Builtin} {lineNumber : Option UInt32}
  {a : Assignment} {word : Word} {value value' : Text}

open Attempt (outcome_bind_ok outcome_bind_error)

/-! ## Assignments alone -/

namespace Assignment

theorem recordAll_singleton
    (hvalue : a.value.resolveValue.outcome session = (.ok (word, value), mid))
    (hrecord : (Session.recordAssignment a.name value).outcome mid = (.ok (), after)) :
    (recordAll [a]).outcome session = (.ok [{ a with value := word }], after) := by
  rw [recordAll, outcome_bind_ok hvalue, outcome_bind_ok hrecord]
  rfl

/-- An assignment alone is recorded where its value is found. -/
theorem resolve_alone (haccepts : session.acceptsAssignments = true)
    (hvalue : a.value.resolveValue.outcome session = (.ok (word, value), mid))
    (hrecord : (Session.recordAssignment a.name value).outcome mid = (.ok (), after)) :
    (a.alone lineNumber).resolve.outcome session =
      (.ok (alone lineNumber { a with value := word }), after) := by
  have hall := recordAll_singleton hvalue hrecord
  rw [← Command.outcome_recordAssignments (c := ⟨lineNumber, [a], [], []⟩) haccepts rfl] at hall
  exact outcome_bind_ok (outcome_bind_ok hall)

theorem resolve_alone_error (haccepts : session.acceptsAssignments = true) {e : Failure}
    (hvalue : a.value.resolveValue.outcome session = (.error e, mid)) :
    (a.alone lineNumber).resolve.outcome session = (.error e, mid) := by
  have hall : (recordAll [a]).outcome session = (.error e, mid) := outcome_bind_error hvalue
  rw [← Command.outcome_recordAssignments (c := ⟨lineNumber, [a], [], []⟩) haccepts rfl] at hall
  exact outcome_bind_error (outcome_bind_error hall)

/-- A value that is found is recorded in a session that is open, as the last statement. -/
theorem resolvesTo_of_resolveValue (haccepts : session.acceptsAssignments = true)
    (hvalue : a.value.resolveValue.outcome session = (.ok (word, value), mid))
    (hword : word.value = value) {live : Builtin × Journal} (hlive : mid.live = some live)
    (hname : a.name.isName = true) (hnul : '\x00' ∉ value) :
    a.ResolvesTo lineNumber session value := by
  obtain ⟨line, hrender⟩ := Statement.exists_render_assign hname hnul
  have hrecord := Session.outcome_recordAssignment hlive a.name value
  rw [Session.define, Session.outcome_onLive_some hlive, Journal.push, hrender] at hrecord
  exact ⟨word, line, _, resolve_alone haccepts hvalue hrecord, hword, hrender,
    List.getLast?_concat⟩

theorem ResolvesTo.unique (h : a.ResolvesTo lineNumber session value)
    (h' : a.ResolvesTo lineNumber session value') : value = value' := by
  obtain ⟨_, _, _, hresolve, rfl, -⟩ := h
  obtain ⟨_, _, _, hresolve', rfl, -⟩ := h'
  rw [hresolve] at hresolve'
  cases hresolve'
  rfl

theorem ResolvesTo.ne_error {e : Failure} (h : a.ResolvesTo lineNumber session value) :
    ((a.alone lineNumber).resolve.outcome session).1 ≠ .error e := by
  obtain ⟨_, _, _, hresolve, -⟩ := h
  rw [hresolve]
  nofun

end Assignment

/-! ## Values that are put to the oracle -/

theorem Word.resolveValue_expand {σ : Type} [Oracle σ] {w : Word} (hscan : w.scan = .ok .expand) :
    (w.resolveValue : Attempt (Session σ) (Word × Text)) =
      w.resolveText .noSplit >>= fun value => pure (literal value, value) := by
  rw [resolveValue, hscan, Attempt.ofExcept_ok_bind, if_neg (by simp [isPlain])]

namespace Session

theorem FlushesTo.live (h : session.FlushesTo builtin) : ∃ live, session.live = some live := by
  obtain ⟨flushed, hflush, -⟩ := h
  cases hlive : session.live with
  | some live => exact ⟨live, rfl⟩
  | none =>
    rw [flush, outcome_onLive_none hlive] at hflush
    cases hflush

theorem FlushesTo.acceptsAssignments (h : session.FlushesTo builtin) :
    session.acceptsAssignments = true := by
  obtain ⟨live, hlive⟩ := h.live
  exact acceptsAssignments_of_live hlive

/-- A value that is source text to be expanded is what the oracle answers after a flush. -/
theorem Settled.resolveValue_ofText (h : mid.Settled builtin)
    (hflush : Session.flush.outcome session = (.ok (), mid)) {source : Text}
    (hscan : scan source = .ok .expand) :
    (Word.ofText source).resolveValue.outcome session =
      (builtin.scope.expand .noSplit source >>= Word.only >>= fun value =>
        .ok (.literal value, value), mid) := by
  have hword : (Word.ofText source).scan = .ok .expand := by
    rw [Word.scan, Word.rawChars_ofText, hscan]
  have hexpand : (Session.expand (Word.ofText source) .noSplit).outcome session =
      (builtin.scope.expand .noSplit source, mid) := by
    rw [outcome_expand (Word.sourceText_ofText source) (by decide),
      h.outcome_expandText_of_flush hflush]
  rw [Word.resolveValue_expand hword, Attempt.outcome_bind, Word.resolveText, Attempt.outcome_bind,
    hexpand]
  rcases builtin.scope.expand .noSplit source with e | fields
  · rfl
  · rw [ok_bind]
    dsimp only [Attempt.outcome_ofExcept]
    rcases Word.only fields with e | value <;> rfl

end Session

end

/-! ## Lists of paths -/

section

variable {session : Session Builtin} {builtin : Builtin} {home name : Text} {first : Segment}
  {rest : List Segment} (hflushes : session.FlushesTo builtin) (lineNumber : Option UInt32)
include hflushes

open Segment (join tail)

/-- A lone tilde in front of a colon is refused. -/
theorem resolve_paths_of_isLone (name : Text) (h : first.IsLone rest) :
    let a : Assignment := ⟨name, .ofText (join ['~'] first rest)⟩
    ((a.alone lineNumber).resolve.outcome session).1 =
      .error (.unimplemented (.userTilde (Piece.tildeWord (join ['~'] first rest)))) := by
  intro a
  have hscan : scan (join ['~'] first rest) = .ok .expand := by
    rw [Segment.scan_join, if_pos (Segment.tilde_mem_join h.1)]
  obtain ⟨mid, hflush, hsettled⟩ := id hflushes
  have hvalue := hsettled.resolveValue_ofText hflush hscan
  rw [Segment.expand_join_of_isLone builtin.scope h] at hvalue
  rw [a.resolve_alone_error hflushes.acceptsAssignments hvalue]

/-- What is recorded of any other list has the home directory at its front only. -/
theorem resolvesTo_of_not_isLone (hhome : builtin.scope.value? "HOME".toList = some home)
    (hnul : '\x00' ∉ home) (hname : name.isName = true) (h : ¬first.IsLone rest) :
    Assignment.ResolvesTo lineNumber session ⟨name, .ofText (join ['~'] first rest)⟩
      (first.under home ++ tail ['~'] rest) := by
  have haccepts := hflushes.acceptsAssignments
  have hwritable : '\x00' ∉ first.under home ++ tail ['~'] rest := by
    intro hmem
    rcases List.mem_append.1 hmem with hmem | hmem
    · rcases Segment.mem_under hmem with hmem | hpath
      · exact hnul hmem
      · cases hpath
    · rcases Segment.mem_tail hmem with hmem | hmem | hpath
      · cases List.mem_singleton.1 hmem
      · cases hmem
      · cases hpath
  have hscan := Segment.scan_join first rest
  split at hscan
  · obtain ⟨mid, hflush, hsettled⟩ := id hflushes
    have hvalue := hsettled.resolveValue_ofText hflush hscan
    rw [Segment.expand_join_of_not_isLone hhome h, ok_bind, Word.only, ok_bind] at hvalue
    obtain ⟨journal, hlive, -⟩ := hsettled
    exact Assignment.resolvesTo_of_resolveValue haccepts hvalue (Word.value_literal _) hlive hname
      hwritable
  · next htilde =>
    have hword : (Word.ofText (join ['~'] first rest)).value =
        first.under home ++ tail ['~'] rest := by
      rw [Word.value_ofText, Segment.join_of_notMem home htilde]
    have hplain : (Word.ofText (join ['~'] first rest)).isPlain .untouched = true := by
      have hback : '\\' ∉ join ['~'] first rest :=
        Segment.notMem_source rfl (by decide) (by decide)
      simpa [Word.isPlain, Word.rawChars_ofText] using hback
    have hvalue : (Word.ofText (join ['~'] first rest)).resolveValue.outcome session =
        (.ok (.ofText (join ['~'] first rest), first.under home ++ tail ['~'] rest), session) := by
      rw [← Word.rawChars_ofText (join _ _ _)] at hscan
      rw [Word.resolveValue_plain hscan hplain, hword]
      rfl
    obtain ⟨live, hlive⟩ := hflushes.live
    exact Assignment.resolvesTo_of_resolveValue haccepts hvalue hword hlive hname hwritable

/-- **A list of paths is recorded in the home directory just if none but the first begins there.**
An assignment alone of a list that begins with a lone tilde in front of a colon is refused as one
that asks for the home directory of a user. Any other is recorded, with the home directory in the
place of a tilde at the very front. The tildes behind colons stay as they are, which makes a
difference unless there are none or the home directory is called by a tilde itself. -/
theorem resolve_paths_iff (hhome : builtin.scope.value? "HOME".toList = some home)
    (hnul : '\x00' ∉ home) (hname : name.isName = true) (first : Segment) (rest : List Segment) :
    let source := join ['~'] first rest
    let a : Assignment := ⟨name, .ofText source⟩
    (first.IsLone rest → ((a.alone lineNumber).resolve.outcome session).1 =
      .error (.unimplemented (.userTilde (Piece.tildeWord source)))) ∧
    (¬first.IsLone rest →
      a.ResolvesTo lineNumber session (first.under home ++ tail ['~'] rest)) ∧
    (a.ResolvesTo lineNumber session (join home first rest) ↔
      ¬first.IsLone rest ∧ (home = ['~'] ∨ ∀ s ∈ rest, s.fromHome = false)) := by
  intro source a
  have hrefused (h : first.IsLone rest) := resolve_paths_of_isLone hflushes lineNumber name h
  have hrecorded (h : ¬first.IsLone rest) :=
    resolvesTo_of_not_isLone hflushes lineNumber hhome hnul hname h
  refine ⟨hrefused, hrecorded, fun h => ?_, fun ⟨hlone, hrest⟩ => ?_⟩
  · have hlone : ¬first.IsLone rest := fun hlone => h.ne_error (hrefused hlone)
    have hsame := (hrecorded hlone).unique h
    rw [join, List.append_cancel_left_eq, Segment.tail_eq_iff] at hsame
    exact ⟨hlone, hsame.imp_left Eq.symm⟩
  · rw [join, Segment.tail_eq_iff.2 hrest]
    exact hrecorded hlone

end

/-- The second path of `a:~` begins in the home directory, which is `/h`; its tilde is recorded. -/
theorem resolve_paths_iff_of_colon :
    let scope : Scope := { vars := Variables.ofList [("HOME".toList, { value := "/h".toList })] }
    let session : Session Builtin :=
      { settings := {}, environment := {}
        host := { hasDirectory := fun _ => true, fileText := fun _ => none }
        live := some ({ scope }, { path := [] }) }
    let first : Segment := ⟨false, ['a'], List.forall_mem_singleton.2 rfl, nofun⟩
    let home : Segment := ⟨true, [], nofun, nofun⟩
    let a : Assignment := ⟨['P'], .ofText "a:~".toList⟩
    (session.FlushesTo { scope } ∧ scope.value? "HOME".toList = some "/h".toList ∧
      '\x00' ∉ "/h".toList ∧ Text.isName ['P'] = true ∧
      Segment.join ['~'] first [home] = "a:~".toList) ∧
    a.ResolvesTo none session "a:~".toList ∧ ¬a.ResolvesTo none session "a:/h".toList := by
  intro scope session first home a
  have hflushes : session.FlushesTo { scope } := Session.Settled.flushesTo ⟨_, rfl, rfl⟩
  have hhome : scope.value? "HOME".toList = some "/h".toList := by decide
  have hnul : '\x00' ∉ "/h".toList := by decide
  have hname : Text.isName ['P'] = true := by decide
  obtain ⟨-, hrecorded, hiff⟩ :=
    resolve_paths_iff hflushes none hhome hnul hname first [home]
  refine ⟨⟨hflushes, hhome, hnul, hname, rfl⟩, hrecorded (nofun), fun h => ?_⟩
  rcases (hiff.1 h).2 with h | h
  · cases h
  · cases h home (.head _)

end ShellFold
