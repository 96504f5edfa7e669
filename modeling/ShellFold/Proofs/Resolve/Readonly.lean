import ShellFold.Proofs.Resolve.Assignments
import ShellFold.Proofs.Session.Readonly

/-!
# Trees that assign to readonly variables

The assignments of a tree are recorded, and an oracle refuses one to a readonly variable when it is
handed over, which is before the next question in the same context or at the begin of a context
there. `Node.handedOver` and `Node.withheld` tell those that this comes to from those that it does
not. A tree that is resolved hands over no assignment to a readonly variable
(`resolve_keeps_readonly`), and may withhold some (`resolve_withholds_readonly`).
-/

set_option autoImplicit false

namespace ShellFold

namespace Node

/-- The names that a tree assigns to and that the oracle comes to know of while it is resolved. -/
def handedOver (node : Node) : List Text := Journal.handedOver [] node.actions

/-- The names that a tree assigns to and that no question and no context comes after: the assignment
is dropped with the context it is made in, or still pending when the tree is resolved. -/
def withheld (node : Node) : List Text :=
  Journal.dropped [] node.actions ++ Journal.queueAfter [] node.actions

/-- Every assignment of a tree is handed over or withheld. -/
theorem perm_assignments (node : Node) :
    (node.assignments.map (·.name)).Perm (node.handedOver ++ node.withheld) := by
  have hperm := Journal.perm_recorded [] node.actions
  rwa [List.nil_append, node.recorded_actions] at hperm

end Node

/-- **No oracle is handed an assignment to a readonly variable.** A tree that is resolved in a
session that has just been opened hands over no assignment to a variable that is readonly in the
environment; if it has one, it withholds it. -/
theorem resolve_keeps_readonly {settings : OracleSettings} {environment : Environment} {host : Host}
    {session after : Session Builtin} {node node' : Node}
    (hstart : Session.start? settings environment host = (.ok (), session))
    (hresolve : node.resolve.outcome session = (.ok node', after)) :
    (∀ name ∈ node.handedOver, environment.vars.isReadonly name = false) ∧
      ∀ a ∈ node.assignments, environment.vars.isReadonly a.name = true →
        a.name ∈ node.withheld := by
  obtain ⟨saved, hawaits⟩ := Session.start?_awaits hstart
  obtain ⟨l, hleads, hactions, -⟩ := Node.recorder_resolveIn .always node hresolve
  have hnames : node.handedOver = (Journal.handedOver [] l).map Prod.fst := by
    rw [Node.handedOver, ← hactions]
    exact @Journal.handedOver_map _ _ [] l Prod.fst
  have hfree : ∀ name ∈ node.handedOver, environment.vars.isReadonly name = false := by
    intro name hname
    rw [hnames] at hname
    obtain ⟨e, he, rfl⟩ := List.mem_map.1 hname
    exact Bool.eq_false_iff.2 ((hleads.awaits hawaits).1 e he)
  refine ⟨hfree, fun a ha hreadonly => ?_⟩
  rcases List.mem_append.1 (node.perm_assignments.subset (List.mem_map_of_mem ha)) with hmem | hmem
  · rw [hfree _ hmem] at hreadonly
    cases hreadonly
  · exact hmem

/-- A subshell hands over what was assigned before it, and withholds what is assigned in it. -/
theorem resolve_keeps_readonly_of_subshell :
    let assign (name value : String) : Node :=
      .command ⟨none, [⟨name.toList, .ofText value.toList⟩], [], []⟩
    let node : Node := .sequence (assign "x" "1") (.subshell (assign "y" "2") [])
    let environment : Environment :=
      { vars := .ofList [("y".toList, { value := "0".toList, readonly := true })] }
    let host : Host := { hasDirectory := fun _ => true, fileText := fun _ => none }
    ∃ session after : Session Builtin, Session.start? {} environment host = (.ok (), session) ∧
      node.resolve.outcome session = (.ok node, after) ∧
      (∀ name ∈ node.handedOver, environment.vars.isReadonly name = false) ∧
      ∀ a ∈ node.assignments, environment.vars.isReadonly a.name = true →
        a.name ∈ node.withheld := by
  intro assign node environment host
  let opened (vars : Variables) : Session Builtin :=
    { settings := {}, environment, host
      live := some ({ scope := { vars } }, { path := host.temporaryDirectory ++ journalName }) }
  have hstart : Session.start? {} environment host = (.ok (), opened environment.vars) := rfl
  have hresolve : node.resolve.outcome (opened environment.vars) =
      (.ok node, opened (environment.vars.insert "x".toList { value := "1".toList })) := rfl
  exact ⟨_, _, hstart, hresolve, resolve_keeps_readonly hstart hresolve⟩

/-- An assignment in a subshell and a last assignment are never handed over, so that a tree is
resolved though both are to a variable that is readonly. -/
theorem resolve_withholds_readonly :
    let assign (value : String) : Node :=
      .command ⟨none, [⟨"x".toList, .ofText value.toList⟩], [], []⟩
    let node : Node := .sequence (.subshell (assign "1") []) (assign "2")
    let environment : Environment :=
      { vars := .ofList [("x".toList, { value := "0".toList, readonly := true })] }
    let host : Host := { hasDirectory := fun _ => true, fileText := fun _ => none }
    ∃ session after : Session Builtin, Session.start? {} environment host = (.ok (), session) ∧
      node.resolve.outcome session = (.ok node, after) ∧
      node.assignments.map (·.name) = ["x".toList, "x".toList] ∧
      environment.vars.isReadonly "x".toList = true := by
  intro assign node environment host
  let opened (pending : List Text) : Session Builtin :=
    { settings := {}, environment, host
      live := some ({ scope := { vars := environment.vars } },
        { path := host.temporaryDirectory ++ journalName, pending }) }
  have hstart : Session.start? {} environment host = (.ok (), opened []) := rfl
  have hresolve : node.resolve.outcome (opened []) = (.ok node, opened ["x=2".toList]) := rfl
  exact ⟨_, _, hstart, hresolve, rfl, rfl⟩

end ShellFold
