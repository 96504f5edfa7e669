import ShellFold.Proofs.Session.Opened
import ShellFold.Proofs.Session.Trace

/-!
# Readonly variables

Only the oracle knows which variables are readonly, and it looks when a statement is carried out: a
session `Holds` statements that are pending, and a flush that succeeds has carried them all out
(`Holds.flush_eq_ok`). So what leads from one session to another never hands over an assignment to a
variable that was readonly before, while what is still pending or was dropped may be one
(`Leads.awaits`). Which variables are readonly is a matter of the environment that the session was
opened with (`start?_awaits`).
-/

set_option autoImplicit false

namespace ShellFold

/-! ## Statements -/

namespace Variables

def isReadonly (vars : Variables) (name : Text) : Bool := (vars.getOrNew name).readonly

theorem isReadonly_withValue (vars : Variables) (name value other : Text) :
    (vars.withValue name value).isReadonly other = vars.isReadonly other := by
  rw [isReadonly, withValue, getOrNew_insert]
  split
  · next heq => rw [heq, isReadonly]
  · rfl

/-- An assignment that succeeds is to a variable that is not readonly, and makes no variable
readonly. -/
theorem assign_eq_ok {vars after : Variables} {name value : Text}
    (h : (assign name value).outcome vars = (.ok (), after)) :
    vars.isReadonly name = false ∧ after = vars.withValue name value := by
  obtain ⟨⟨⟩, _, hname, h⟩ := Attempt.outcome_bind_eq_ok.1 h
  obtain rfl : vars = _ := congrArg Prod.snd hname
  obtain ⟨_, _, hget, h⟩ := Attempt.outcome_bind_eq_ok.1 h
  cases hget
  obtain ⟨hreadonly, h⟩ := Attempt.outcome_guard_eq_ok.1 h
  cases h
  exact ⟨Bool.eq_false_iff.2 hreadonly, rfl⟩

theorem mark_eq_ok {vars after : Variables} {flag : Attribute} {name : Text}
    (h : (mark flag name).outcome vars = (.ok (), after)) :
    after = vars.insert name ((vars.getOrNew name).mark flag) := by
  obtain ⟨⟨⟩, _, hname, h⟩ := Attempt.outcome_bind_eq_ok.1 h
  obtain rfl : vars = _ := congrArg Prod.snd hname
  cases h
  rfl

/-- An attribute makes its variable readonly, if it is that one, and no other variable. -/
theorem isReadonly_mark (vars : Variables) (flag : Attribute) (name other : Text) :
    (vars.insert name ((vars.getOrNew name).mark flag)).isReadonly other = true ↔
      vars.isReadonly other = true ∨ flag = .readonly ∧ name = other := by
  rw [isReadonly, getOrNew_insert]
  split
  · next heq =>
    subst heq
    cases flag <;> simp [Variable.mark, isReadonly]
  · next hne => simp [isReadonly, hne]

end Variables

/-- What is readonly stays so, whatever statement is carried out, and nothing else becomes so but
by the statement that says it. -/
theorem Statement.isReadonly_apply {statement : Statement} {vars after : Variables}
    (h : statement.apply.outcome vars = (.ok (), after)) (name : Text) :
    after.isReadonly name = true ↔ vars.isReadonly name = true ∨ statement = .readonly name := by
  cases statement with
  | assign target value =>
    obtain ⟨-, rfl⟩ := Variables.assign_eq_ok h
    simp [Variables.isReadonly_withValue]
  | exported target =>
    obtain rfl := Variables.mark_eq_ok h
    simp [Variables.isReadonly_mark]
  | readonly target =>
    obtain rfl := Variables.mark_eq_ok h
    simp [Variables.isReadonly_mark]

/-- Statements that are all carried out assign to no variable that was readonly before, and what is
readonly before or by one of them is so afterwards. -/
theorem Statement.forM_apply_eq_ok {statements : List Statement} {vars after : Variables}
    (h : (forM statements Statement.apply).outcome vars = (.ok (), after)) :
    (∀ name value, .assign name value ∈ statements → vars.isReadonly name = false) ∧
      ∀ name, vars.isReadonly name = true ∨ .readonly name ∈ statements →
        after.isReadonly name = true := by
  induction statements generalizing vars with
  | nil =>
    cases h
    exact ⟨nofun, fun name hname => hname.resolve_right nofun⟩
  | cons statement rest ih =>
    obtain ⟨⟨⟩, mid, hfirst, h⟩ := Attempt.outcome_bind_eq_ok.1 h
    obtain ⟨hassigns, hreadonly⟩ := ih h
    refine ⟨fun name value hmem => ?_, fun name hname => hreadonly name ?_⟩
    · rcases List.mem_cons.1 hmem with rfl | hmem
      · exact (Variables.assign_eq_ok hfirst).1
      · -- were it readonly before, it would still be when the assignment is carried out
        have hmid := hassigns name value hmem
        rw [Bool.eq_false_iff] at hmid ⊢
        exact fun hvars => hmid ((isReadonly_apply hfirst name).2 (.inl hvars))
    · rcases hname with hname | hmem
      · exact .inl ((isReadonly_apply hfirst name).2 (.inl hname))
      · rcases List.mem_cons.1 hmem with heq | hmem
        · exact .inl ((isReadonly_apply hfirst name).2 (.inr heq.symm))
        · exact .inr hmem

namespace Session

variable {session after : Session Builtin} {builtin : Builtin} {statements : List Statement}

/-! ## What is never handed over -/

/-- The assignments are pending in the session, and the variables of some names are readonly, within
contexts that will take back the saved scopes. -/
def Awaits (locked : Text → Prop) (saved : List Scope) (queue : List (Text × Text))
    (session : Session Builtin) : Prop :=
  ∃ scope, session.Holds (queue.map fun e => .assign e.1 e.2) { scope, saved } ∧
    ∀ name, locked name → scope.vars.isReadonly name = true

namespace Awaits

variable {locked : Text → Prop} {saved : List Scope} {queue : List (Text × Text)}

/-- What was awaited is carried out: nothing of it was an assignment to a readonly variable. -/
theorem not_locked_of_apply {scope : Scope} {vars : Variables}
    (hlocked : ∀ name, locked name → scope.vars.isReadonly name = true)
    (happly : (forM (queue.map fun e => .assign e.1 e.2) Statement.apply).outcome scope.vars =
      (.ok (), vars)) :
    (∀ e ∈ queue, ¬ locked e.1) ∧ ∀ name, locked name → vars.isReadonly name = true := by
  obtain ⟨hassigns, hreadonly⟩ := Statement.forM_apply_eq_ok happly
  refine ⟨fun e he hname => ?_, fun name hname => hreadonly name (.inl (hlocked name hname))⟩
  have hfree := hassigns e.1 e.2 (List.mem_map_of_mem he)
  rw [hlocked e.1 hname] at hfree
  cases hfree

theorem expand_eq_ok {w : Word} {mode : Mode} {fields : List Text}
    (h : session.Awaits locked saved queue)
    (hexpand : (Session.expand w mode).outcome session = (.ok fields, after)) :
    (∀ e ∈ queue, ¬ locked e.1) ∧ after.Awaits locked saved [] := by
  obtain ⟨scope, hholds, hlocked⟩ := h
  obtain ⟨vars, happly, hsettled⟩ := hholds.expand_eq_ok hexpand
  obtain ⟨hfree, hlocked⟩ := not_locked_of_apply hlocked happly
  exact ⟨hfree, _, hsettled.holds, hlocked⟩

theorem recordAssignment_eq_ok {name value : Text} (h : session.Awaits locked saved queue)
    (hrecord : (Session.recordAssignment name value).outcome session = (.ok (), after)) :
    after.Awaits locked saved (queue ++ [(name, value)]) := by
  obtain ⟨scope, hholds, hlocked⟩ := h
  refine ⟨scope, ?_, hlocked⟩
  rw [List.map_append]
  exact hholds.recordAssignment_eq_ok hrecord

theorem enterScope_eq_ok (h : session.Awaits locked saved queue)
    (henter : Session.enterScope.outcome session = (.ok (), after)) :
    (∀ e ∈ queue, ¬ locked e.1) ∧ ∃ scope, after.Awaits locked (scope :: saved) [] ∧
      ∀ name, locked name → scope.vars.isReadonly name = true := by
  obtain ⟨scope, hholds, hlocked⟩ := h
  obtain ⟨vars, happly, hsettled⟩ := hholds.enterScope_eq_ok henter
  obtain ⟨hfree, hlocked⟩ := not_locked_of_apply hlocked happly
  exact ⟨hfree, _, ⟨_, hsettled.holds, hlocked⟩, hlocked⟩

theorem leaveScope_eq_ok {scope : Scope} (h : session.Awaits locked (scope :: saved) queue)
    (hscope : ∀ name, locked name → scope.vars.isReadonly name = true)
    (hleave : Session.leaveScope.outcome session = (.ok (), after)) :
    after.Awaits locked saved [] := by
  obtain ⟨last, hholds, -⟩ := h
  exact ⟨scope, (hholds.leaveScope_eq_ok hleave).holds, hscope⟩

end Awaits

/-- **No assignment to a readonly variable is handed over** by what leads from one session to
another: such an assignment is dropped, or still pending. -/
theorem Leads.awaits {locked : Text → Prop} {l : List (Journal.Action (Text × Text))}
    (h : Leads l session after) : ∀ {saved : List Scope} {queue : List (Text × Text)},
    session.Awaits locked saved queue →
    (∀ e ∈ Journal.handedOver queue l, ¬ locked e.1) ∧
      after.Awaits locked saved (Journal.queueAfter queue l) := by
  induction h with
  | refl s =>
    intro saved queue hs
    exact ⟨fun e he => (List.not_mem_nil he).elim, hs⟩
  | trans _ _ ih ih' =>
    intro saved queue hs
    obtain ⟨hfree, ht⟩ := ih hs
    obtain ⟨hfree', hu⟩ := ih' ht
    rw [Journal.handedOver_append, List.forall_mem_append, Journal.queueAfter_append]
    exact ⟨⟨hfree, hfree'⟩, hu⟩
  | expand hexpand =>
    intro saved queue hs
    simpa [Journal.handedOver, Journal.queueAfter] using hs.expand_eq_ok hexpand
  | record hrecord =>
    intro saved queue hs
    exact ⟨fun e he => (List.not_mem_nil he).elim, hs.recordAssignment_eq_ok hrecord⟩
  | context henter _ hleave ih =>
    intro saved queue hs
    obtain ⟨hfree, scope, hentered, hscope⟩ := hs.enterScope_eq_ok henter
    obtain ⟨hfree', hlast⟩ := ih hentered
    have hafter := hlast.leaveScope_eq_ok hscope hleave
    rw [Journal.inContext, Journal.handedOver, Journal.handedOver_append, Journal.queueAfter,
      Journal.queueAfter_append]
    refine ⟨List.forall_mem_append.2 ⟨hfree, ?_⟩, hafter⟩
    exact List.forall_mem_append.2 ⟨hfree', fun e he => (List.not_mem_nil he).elim⟩

/-! ## Opened sessions -/

/-- What is readonly in an environment is declared so. -/
theorem readonly_mem_statements {environment : Environment} {name : Text}
    (h : environment.vars.isReadonly name = true) : .readonly name ∈ environment.statements := by
  rw [Variables.isReadonly, Variables.getOrNew] at h
  cases hget : environment.vars.get? name with
  | none =>
    rw [hget] at h
    cases h
  | some v =>
    rw [hget] at h
    have hreadonly : v.readonly = true := h
    refine List.mem_flatMap.2 ⟨(name, v), (Variables.get?_eq_some_iff _ _ _).1 hget, ?_⟩
    simp [hreadonly]

/-- Once an environment is defined, what it says is readonly. -/
theorem isReadonly_of_define {environment : Environment} {last : Builtin}
    (h : environment.define.outcome builtin = (.ok (), last)) {name : Text}
    (hname : environment.vars.isReadonly name = true) :
    last.scope.vars.isReadonly name = true := by
  obtain ⟨⟨⟩, mid, hdefine, h⟩ := Attempt.outcome_bind_eq_ok.1 h
  cases h
  rw [Builtin.onVariables, Attempt.outcome_ofOutcome, Prod.mk.injEq] at hdefine
  obtain ⟨hresult, rfl⟩ := hdefine
  have happly : (forM environment.statements Statement.apply).outcome builtin.scope.vars =
      (.ok (), ((forM environment.statements Statement.apply).outcome builtin.scope.vars).2) :=
    Prod.ext hresult rfl
  -- the positional parameters have no part in the table
  exact (Statement.forM_apply_eq_ok happly).2 name (.inr (readonly_mem_statements hname))

/-- In a session that could be opened, what the environment says is readonly. -/
theorem start?_awaits {settings : OracleSettings} {environment : Environment} {host : Host}
    (h : start? settings environment host = (.ok (), session)) :
    ∃ saved, session.Awaits (environment.vars.isReadonly · = true) saved [] := by
  obtain ⟨-, last, hinstall, hsettled⟩ := start?_settled h
  refine ⟨last.saved, last.scope, hsettled.holds, fun name hname => ?_⟩
  unfold Environment.install at hinstall
  split at hinstall
  · obtain ⟨⟨⟩, _, -, hdefine⟩ := Attempt.outcome_bind_eq_ok.1 hinstall
    exact isReadonly_of_define hdefine hname
  · exact isReadonly_of_define hinstall hname

end Session

end ShellFold
