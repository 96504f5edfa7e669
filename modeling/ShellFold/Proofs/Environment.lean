import ShellFold.Builtin
import ShellFold.Proofs.Script
import ShellFold.Session

/-!
# Environments as statements

A session hands its environment to the oracle as statements, some for each variable. They can all
be written just if the names are valid and no value has a NUL
(`Environment.isOk_render_statements`), and what they make of an empty table is the table of the
environment (`Environment.outcome_statements`). `Environment.install` is all that an oracle is told
when a session is opened.
-/

set_option autoImplicit false

namespace ShellFold

/-- An environment of variables with valid names and values that can be written, and options under
which expanding cannot end the shell. -/
structure Environment.IsLoadable (environment : Environment) : Prop where
  name : ∀ e ∈ environment.vars.entries, Text.isName e.1 = true
  value : ∀ e ∈ environment.vars.entries, '\x00' ∉ e.2.value
  errexit : 'e' ∉ environment.options
  nounset : 'u' ∉ environment.options

/-- An environment of variables with valid names and values that can be written, none of them
readonly, and options under which expanding cannot end the shell. -/
structure Environment.IsPlain (environment : Environment) : Prop where
  name : ∀ e ∈ environment.vars.entries, Text.isName e.1 = true
  value : ∀ e ∈ environment.vars.entries, '\x00' ∉ e.2.value
  writable : ∀ e ∈ environment.vars.entries, e.2.readonly = false
  errexit : 'e' ∉ environment.options
  nounset : 'u' ∉ environment.options
  dumpFile : environment.dumpFile = none

theorem Environment.IsPlain.isLoadable {environment : Environment} (h : environment.IsPlain) :
    environment.IsLoadable :=
  ⟨h.name, h.value, h.errexit, h.nounset⟩

/-- The scope that an environment stands for. -/
def Environment.scope (environment : Environment) : Scope where
  vars := environment.vars
  positional := environment.positional
  options := environment.options

/-! ## Options -/

theorem checkOptions_eq_ok {options : Text} :
    checkOptions options = .ok () ↔ 'e' ∉ options ∧ 'u' ∉ options := by
  unfold checkOptions
  split
  · next flag hflag =>
    have hmem := List.mem_of_find?_eq_some hflag
    have hon : flag ∈ options := by simpa using List.find?_some hflag
    simp only [forbiddenOptions, List.mem_cons, List.not_mem_nil, or_false] at hmem
    refine ⟨nofun, fun hoff => ?_⟩
    rcases hmem with rfl | rfl
    · exact absurd hon hoff.1
    · exact absurd hon hoff.2
  · next hnone => simpa [forbiddenOptions] using hnone

theorem checkOptions_eq_error {options : Text} {e : Failure} (h : checkOptions options = .error e) :
    ∃ cause, e = .early cause := by
  unfold checkOptions at h
  split at h
  · cases h
    exact ⟨_, rfl⟩
  · cases h

/-! ## Tables -/

namespace Variables

/-- Entries in order, added to a table, take the place of what it has. -/
theorem get?_foldl_insert {entries : List (Text × Variable)}
    (hsorted : entries.Pairwise fun a b => a.1 < b.1) (vars : Variables) (name : Text) :
    (entries.foldl (fun vars (name, v) => vars.insert name v) vars).get? name =
      (find? name entries).or (vars.get? name) := by
  induction entries generalizing vars with
  | nil => rfl
  | cons e entries ih =>
    obtain ⟨key, v⟩ := e
    obtain ⟨hhead, htail⟩ := List.pairwise_cons.1 hsorted
    rw [List.foldl_cons, ih htail, get?_insert, find?]
    split
    · next heq =>
      subst heq
      have hnone : find? key entries = none := by
        rw [Option.eq_none_iff_forall_not_mem]
        intro w hw
        exact List.lt_irrefl key (hhead _ (mem_of_find? hw))
      rw [hnone]
      rfl
    · rfl

/-- The entries of a table make it up again. -/
theorem foldl_insert_entries (vars : Variables) :
    vars.entries.foldl (fun vars (name, v) => vars.insert name v) empty = vars := by
  refine ext_get? fun name => ?_
  rw [get?_foldl_insert vars.sorted, get?_empty, Option.or_none]
  rfl

theorem insert_insert (vars : Variables) (name : Text) (v w : Variable) :
    (vars.insert name v).insert name w = vars.insert name w := by
  refine ext_get? fun other => ?_
  rw [get?_insert, get?_insert, get?_insert]
  split <;> rfl

theorem getOrNew_insert (vars : Variables) (name other : Text) (v : Variable) :
    (vars.insert name v).getOrNew other = if name = other then v else vars.getOrNew other := by
  rw [getOrNew, get?_insert]
  split <;> rfl

/-- The first assignment to a name makes a variable without attributes. -/
theorem outcome_assign_new {vars : Variables} {name : Text} (hname : Text.isName name = true)
    (hnew : vars.get? name = none) (value : Text) :
    (assign name value).outcome vars = (.ok (), vars.insert name { value }) := by
  have hget : vars.getOrNew name = { value := [] } := by
    rw [getOrNew, hnew]
    rfl
  rw [assign, Attempt.outcome_bind_ok (outcome_checkName hname vars),
    Attempt.outcome_bind_ok Attempt.outcome_get, hget]
  rfl

/-- An attribute can be given to every variable that can be named. -/
theorem outcome_mark {name : Text} (hname : Text.isName name = true) (flag : Attribute)
    (vars : Variables) :
    (mark flag name).outcome vars =
      (.ok (), vars.insert name ((vars.getOrNew name).mark flag)) := by
  rw [mark, Attempt.outcome_bind_ok (outcome_checkName hname _)]
  rfl

/-- An attribute for the variable that was defined last. -/
theorem outcome_mark_insert {name : Text} (hname : Text.isName name = true) (flag : Attribute)
    (vars : Variables) (v : Variable) :
    (mark flag name).outcome (vars.insert name v) = (.ok (), vars.insert name (v.mark flag)) := by
  rw [outcome_mark hname, getOrNew_insert, if_pos rfl, insert_insert]

end Variables

/-! ## Statements -/

namespace Statement

/-- The statements of one variable. -/
def definition : Text × Variable → List Statement := fun (name, v) =>
  .assign name v.value :: (if v.exported then [.exported name] else [])
    ++ (if v.readonly then [.readonly name] else [])

/-- The statements of a new variable define it, with its attributes. -/
theorem outcome_definition {vars : Variables} {name : Text} (hname : Text.isName name = true)
    (hnew : vars.get? name = none) (v : Variable) :
    (forM (definition (name, v)) apply).outcome vars = (.ok (), vars.insert name v) := by
  obtain ⟨value, exported, readonly⟩ := v
  have hassign : (apply (.assign name value)).outcome vars = (.ok (), vars.insert name { value }) :=
    Variables.outcome_assign_new hname hnew value
  have hexported : (apply (.exported name)).outcome (vars.insert name { value }) =
      (.ok (), vars.insert name { value, exported := true }) :=
    Variables.outcome_mark_insert hname .exported vars _
  have hreadonly (exported : Bool) :
      (apply (.readonly name)).outcome (vars.insert name { value, exported }) =
        (.ok (), vars.insert name { value, exported, readonly := true }) :=
    Variables.outcome_mark_insert hname .readonly vars _
  rw [definition, List.cons_append, List.forM_cons, Attempt.outcome_bind_ok hassign]
  cases exported <;> cases readonly
  · rfl
  · exact Attempt.outcome_bind_ok (hreadonly false)
  · exact Attempt.outcome_bind_ok hexported
  · exact (Attempt.outcome_bind_ok hexported).trans (Attempt.outcome_bind_ok (hreadonly true))

/-- The statements of new variables define them, one after the other. -/
theorem outcome_definitions {entries : List (Text × Variable)}
    (hname : ∀ e ∈ entries, Text.isName e.1 = true)
    (hsorted : entries.Pairwise fun a b => a.1 < b.1) : ∀ {vars : Variables},
    (∀ e ∈ entries, vars.get? e.1 = none) →
    (forM (entries.flatMap definition) apply).outcome vars =
      (.ok (), entries.foldl (fun vars (name, v) => vars.insert name v) vars) := by
  induction entries with
  | nil => exact fun _ => rfl
  | cons e entries ih =>
    intro vars hnew
    obtain ⟨name, v⟩ := e
    rw [List.forall_mem_cons] at hname hnew
    obtain ⟨hhead, htail⟩ := List.pairwise_cons.1 hsorted
    have hstill : ∀ e ∈ entries, (vars.insert name v).get? e.1 = none := by
      intro e he
      have hne : name ≠ e.1 := fun heq => List.lt_irrefl name (heq ▸ hhead e he)
      rw [Variables.get?_insert, if_neg hne]
      exact hnew.2 e he
    rw [List.flatMap_cons, List.forM_append,
      Attempt.outcome_bind_ok (outcome_definition hname.1 hnew.1 v), ih hname.2 htail hstill]
    rfl

theorem isOk_render_assign {name value : Text} :
    (assign name value).render.isOk = true ↔ Text.isName name = true ∧ '\x00' ∉ value := by
  rw [isOk_iff]
  constructor
  · rintro ⟨line, h⟩
    obtain ⟨⟨⟩, hname, h⟩ := bind_eq_ok.1 h
    obtain ⟨source, hsource, -⟩ := bind_eq_ok.1 h
    refine ⟨checkName_eq_ok.1 hname, fun hnul => ?_⟩
    rw [quoteLiteral_eq_ok, (Text.quote?_eq_none_iff value).2 hnul] at hsource
    cases hsource
  · exact fun h => exists_render_assign h.1 h.2

/-- The statements of a variable can be written just if it has a valid name and a value without
NUL. -/
theorem isOk_render_definition {name : Text} {v : Variable} :
    (∀ statement ∈ definition (name, v), statement.render.isOk = true) ↔
      Text.isName name = true ∧ '\x00' ∉ v.value := by
  constructor
  · exact fun h => isOk_render_assign.1 (h _ (by simp [definition]))
  · intro h statement hmem
    have hmark {text : Text} :
        (checkName name >>= fun _ => pure (f := Except Failure) text).isOk = true := by
      rw [checkName_eq_ok.2 h.1]
      rfl
    simp only [definition, List.cons_append, List.mem_cons, List.mem_append, List.mem_ite_nil_right,
      List.not_mem_nil, or_false] at hmem
    rcases hmem with rfl | ⟨-, rfl⟩ | ⟨-, rfl⟩
    · exact isOk_render_assign.2 h
    · exact hmark
    · exact hmark

theorem render_eq_error {statement : Statement} {e : Failure} (h : statement.render = .error e) :
    ∃ cause, e = .early cause := by
  have hchecked {name : Text} (text : Except Failure Text)
      (htext : text = .error e → ∃ cause, e = .early cause)
      (h : (checkName name >>= fun _ => text) = .error e) : ∃ cause, e = .early cause := by
    unfold checkName at h
    split at h
    · exact htext h
    · cases h
      exact ⟨_, rfl⟩
  cases statement with
  | assign name value =>
    refine hchecked _ (fun hvalue => ?_) h
    unfold quoteLiteral at hvalue
    split at hvalue
    · cases hvalue
    · cases hvalue
      exact ⟨_, rfl⟩
  | exported name => exact hchecked (.ok _) (fun hok => by cases hok) h
  | readonly name => exact hchecked (.ok _) (fun hok => by cases hok) h

end Statement

theorem Builtin.outcome_onVariables {α : Type} {x : Attempt Variables α} {builtin : Builtin}
    {result : Except Failure α} {vars : Variables}
    (h : x.outcome builtin.scope.vars = (result, vars)) :
    (Builtin.onVariables x).outcome builtin =
      (result, { builtin with scope := { builtin.scope with vars } }) := by
  simp only [Builtin.onVariables, Attempt.outcome_ofOutcome, h]

namespace Environment

variable {environment : Environment}

/-- The statements of an environment can all be written just if its names are valid and no value has
a NUL. -/
theorem isOk_render_statements :
    (∀ statement ∈ environment.statements, statement.render.isOk = true) ↔
      ∀ e ∈ environment.vars.entries, Text.isName e.1 = true ∧ '\x00' ∉ e.2.value :=
  List.forall_mem_flatMap.trans (forall₂_congr fun _ _ => Statement.isOk_render_definition)

/-- The statements of an environment make up its table. -/
theorem outcome_statements (h : ∀ e ∈ environment.vars.entries, Text.isName e.1 = true) :
    (forM environment.statements Statement.apply).outcome {} = (.ok (), environment.vars) := by
  refine (Statement.outcome_definitions h environment.vars.sorted fun _ _ => rfl).trans ?_
  exact congrArg (Except.ok (), ·) (Variables.foldl_insert_entries environment.vars)

/-- What makes an oracle take over the variables and the positional parameters. -/
def define (environment : Environment) : Attempt Builtin Unit := do
  Builtin.onVariables (forM environment.statements Statement.apply)
  Oracle.setPositional environment.positional

/-- What makes an oracle take an environment over on a host. -/
def install (environment : Environment) (host : Host) : Attempt Builtin Unit :=
  match environment.dumpFile with
  | some path => do
    Oracle.source ⟨path, host.fileText path⟩
    environment.define
  | none => environment.define

/-- Of a host, only the text of the file of definitions matters. -/
theorem install_congr {host host' : Host}
    (h : ∀ path, environment.dumpFile = some path → host'.fileText path = host.fileText path) :
    environment.install host' = environment.install host := by
  unfold install
  split
  · next path hdump => rw [h path hdump]
  · rfl

end Environment

end ShellFold
