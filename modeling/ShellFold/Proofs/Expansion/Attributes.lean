import ShellFold.Proofs.Environment
import ShellFold.Proofs.Expansion.Braces
import ShellFold.Proofs.Expansion.Inert
import ShellFold.Proofs.Expansion.Mentioned

/-!
# Attributes and values

A variable that is given an attribute keeps the value it has; one that was not set is set by it, to
the empty value (`Variables.value?_mark`). So an attribute command changes what words expand to just
if the variable was not set (`Builtin.expand_marked_iff`).
-/

set_option autoImplicit false

namespace ShellFold

/-! ## Scripts with one statement -/

/-- The statements of a script that are carried out: those that are neither blank nor a comment. -/
def Text.commands (script : Text) : List Text :=
  (script.statements.map trim).filter fun statement => statement ≠ [] ∧ statement.head? ≠ some '#'

namespace Variables

theorem applyScript_eq_forM_commands (script : Text) :
    applyScript script = forM script.commands applyStatement := by
  rw [applyScript, Text.commands, List.forM_eq_forM]
  induction script.statements with
  | nil => rfl
  | cons line lines ih =>
    rw [List.forM_cons, ih, applyLine, List.map_cons, List.filter_cons]
    by_cases h : line.trim = [] ∨ line.trim.head? = some '#'
    · rw [if_pos h, if_neg (by simpa [or_iff_not_imp_left] using h)]
      rfl
    · rw [if_neg h, if_pos (by simpa [not_or] using h), List.forM_cons]

variable {name : Text} (hname : name.isName = true)
include hname

/-- A script with an attribute command for one variable gives it the attribute. -/
theorem outcome_applyScript_mark {script statement word : Text} {flag : Attribute}
    (hscript : script.commands = [statement]) (hstatement : statement.tokens? = some [word, name])
    (hword : Attribute.ofWord? word = some flag) (vars : Variables) :
    (applyScript script).outcome vars =
      (.ok (), vars.insert name ((vars.getOrNew name).mark flag)) := by
  have hsingle : applyScript script = mark flag name := by
    rw [applyScript_eq_forM_commands, hscript, List.forM_cons,
      Statement.applyStatement_of_tokens? hname hstatement hword]
    exact bind_pure _
  rw [hsingle, outcome_mark hname]

omit hname in
/-- A variable with a new attribute has the value it had, or the empty one. -/
theorem value?_mark (vars : Variables) (flag : Attribute) (other : Text) :
    (vars.insert name ((vars.getOrNew name).mark flag)).value? other =
      if name = other then some ((vars.value? name).getD []) else vars.value? other := by
  have hvalue : ((vars.getOrNew name).mark flag).value = (vars.value? name).getD [] := by
    have hkeeps : ((vars.getOrNew name).mark flag).value = (vars.getOrNew name).value := by
      cases flag <;> rfl
    rw [hkeeps, getOrNew, value?]
    cases vars.get? name <;> rfl
  rw [value?, get?_insert]
  split
  · rw [Option.map_some, hvalue]
  · rfl

end Variables

/-! ## Expansions behind an attribute command -/

namespace Scope

theorem Alike.of_value? {a b : Scope} (hpositional : a.positional = b.positional)
    (hoptions : a.options = b.options) (hvalue : a.value? = b.value?) : a.Alike b :=
  ⟨hpositional, hoptions, by simp only [Scope.separators, hvalue]⟩

/-- Scopes whose variables have the same values expand alike. -/
theorem expand_of_value? {a b : Scope} (hpositional : a.positional = b.positional)
    (hoptions : a.options = b.options) (hvalue : a.value? = b.value?) (mode : Mode) (s : Text) :
    a.expand mode s = b.expand mode s :=
  (Alike.of_value? hpositional hoptions hvalue).expand fun _ _ => congrFun hvalue _

/-- The scope with an attribute given to a variable. -/
def mark (scope : Scope) (flag : Attribute) (name : Text) : Scope :=
  { scope with vars := scope.vars.insert name ((scope.vars.getOrNew name).mark flag) }

/-- An attribute makes a difference as the value that the variable has behind it would. -/
theorem expand_mark (scope : Scope) (flag : Attribute) (name : Text) (mode : Mode) (s : Text) :
    (scope.mark flag name).expand mode s =
      (scope.withValue name ((scope.value? name).getD [])).expand mode s := by
  have hvalue : (scope.mark flag name).value? =
      (scope.withValue name ((scope.value? name).getD [])).value? := by
    funext other
    rw [value?_withValue]
    exact scope.vars.value?_mark flag other
  exact expand_of_value? (a := scope.mark flag name) (b := scope.withValue name _) rfl rfl hvalue
    mode s

/-- A variable that is given the value it has makes no difference. -/
theorem expand_withValue_of_eq {scope : Scope} {name value : Text}
    (h : scope.value? name = some value) (mode : Mode) (s : Text) :
    (scope.withValue name value).expand mode s = scope.expand mode s := by
  have hvalue : (scope.withValue name value).value? = scope.value? := by
    funext other
    rw [value?_withValue]
    split
    · next heq => rw [← heq, h]
    · rfl
  exact expand_of_value? (a := scope.withValue name value) (b := scope) rfl rfl hvalue mode s

/-- Whether a variable is set can be told from an expansion. -/
theorem expand_alternative_ne {a b : Scope} {name : Text} (hname : name.isName = true)
    (ha : a.value? name = none) (hb : b.value? name ≠ none) :
    a.expand .noSplit (Choice.alternative.source false name ['w']) ≠
      b.expand .noSplit (Choice.alternative.source false name ['w']) := by
  have hword : Text.IsBraceless ['w'] := by simp [Text.IsBraceless]
  have hread : Piece.read .bare ['w'] = [.text ['w']] := by
    rw [Piece.read_text (Quoting.step_plain (by decide) .bare []), Piece.read_nil]
    rfl
  obtain ⟨value, hb⟩ := Option.ne_none_iff_exists'.1 hb
  rw [a.expand_alternative false hname hword (by decide),
    b.expand_alternative false hname hword (by decide), ha, hb, hread]
  intro h
  cases h

end Scope

/-- **Attributes and what words expand to.** A script whose only statement is an attribute command
for one variable is carried out in every state. Behind it words expand as if the variable had been
given the value it has, or the empty value if it was not set; hence as they did before, all of them
in every mode, if and only if the variable was set. -/
theorem Builtin.expand_marked_iff (builtin : Builtin) (path : Text)
    {content statement word name : Text} {flag : Attribute} (hname : name.isName = true)
    (hcontent : content.commands = [statement])
    (hstatement : statement.tokens? = some [word, name])
    (hword : Attribute.ofWord? word = some flag) :
    ∃ marked, (Oracle.source ⟨path, some content⟩).outcome builtin = (.ok (), marked) ∧
      (∀ s mode, ((Oracle.expand s mode).outcome marked).1 =
        (builtin.scope.withValue name ((builtin.scope.value? name).getD [])).expand mode s) ∧
      ((∀ s mode, ((Oracle.expand s mode).outcome marked).1 =
          ((Oracle.expand s mode).outcome builtin).1) ↔ builtin.scope.value? name ≠ none) := by
  have hscript := Variables.outcome_applyScript_mark hname hcontent hstatement hword
    builtin.scope.vars
  have hmark := fun s mode => builtin.scope.expand_mark flag name mode s
  refine ⟨{ builtin with scope := builtin.scope.mark flag name },
    Builtin.outcome_onVariables hscript, hmark, fun hsame hunset => ?_, fun hset s mode => ?_⟩
  · have hset : (builtin.scope.withValue name ((builtin.scope.value? name).getD [])).value? name ≠
        none := by
      rw [Scope.value?_withValue, if_pos rfl]
      exact Option.some_ne_none _
    exact Scope.expand_alternative_ne hname hunset hset ((hmark _ _).symm.trans (hsame _ _)).symm
  · obtain ⟨value, hset⟩ := Option.ne_none_iff_exists'.1 hset
    have hsame := Scope.expand_withValue_of_eq hset mode s
    rw [Builtin.outcome_expand, Builtin.outcome_expand, hmark, hset]
    exact hsame

/-- A variable that is exported before anything is assigned to it. -/
theorem Builtin.expand_marked_iff_of_unset :
    let builtin : Builtin := {}
    let content : Text := "export x\n".toList
    (Text.isName ['x'] = true ∧ content.commands = ["export x".toList] ∧
      Text.tokens? "export x".toList = some ["export".toList, ['x']] ∧
      Attribute.ofWord? "export".toList = some .exported) ∧
    ∃ marked, (Oracle.source ⟨[], some content⟩).outcome builtin = (.ok (), marked) ∧
      (∀ s mode, ((Oracle.expand s mode).outcome marked).1 =
        (builtin.scope.withValue ['x'] []).expand mode s) ∧
      ¬∀ s mode, ((Oracle.expand s mode).outcome marked).1 =
        ((Oracle.expand s mode).outcome builtin).1 := by
  intro builtin content
  have hname : Text.isName ['x'] = true := by decide
  have hcontent : content.commands = ["export x".toList] := by decide
  have hstatement : Text.tokens? "export x".toList = some ["export".toList, ['x']] := by decide
  have hword : Attribute.ofWord? "export".toList = some .exported := by decide
  obtain ⟨marked, hsource, hexpand, hsame⟩ :=
    expand_marked_iff builtin [] hname hcontent hstatement hword
  exact ⟨⟨hname, hcontent, hstatement, hword⟩, marked, hsource, hexpand,
    fun h => hsame.1 h rfl⟩

end ShellFold
