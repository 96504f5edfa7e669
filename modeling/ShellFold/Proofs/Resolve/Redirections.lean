import ShellFold.Proofs.Resolve.Parts
import ShellFold.Proofs.Resolve.Simulation
import ShellFold.Proofs.Session.Equivalent

/-!
# The redirections of a compound command

A shell opens the redirections of a compound command before it runs the command's body; here they
are resolved after the body. `resolve_redirections` says when this makes no difference: what is done
in a context of its own, and what assigns nothing, ends in a session equivalent to the one it began
in, and a redirection only asks. Otherwise the redirections see what the body has assigned
(`exists_group_not_resolvedIn`).
-/

set_option autoImplicit false

namespace ShellFold

open Session (Congruent Equivalent Program)

/-! ## Redirections -/

theorem Word.congruent_resolveText (w : Word) (mode : Mode) : Congruent (w.resolveText mode) :=
  .bind_ofExcept (.expand w mode) only

theorem Word.congruent_resolve (mode : Mode) (w : Word) : Congruent (w.resolve mode) := by
  refine .ofExcept_bind fun verdict => ?_
  cases verdict with
  | untouched => exact .ofExcept (.ok w)
  | expand => exact (congruent_resolveText w mode).bind_pure literal

namespace Redirection

theorem congruent_resolve (r : Redirection) : Congruent r.resolve := by
  cases r with
  | file operator descriptor target =>
    cases descriptor with
    | fixed number => exact (target.congruent_resolve .target).bind_pure _
    | runtime name => exact .ofExcept (.error _)
  | heredoc kind descriptor body =>
    cases descriptor with
    | fixed number =>
      cases kind with
      | expanding => exact (body.congruent_resolve .heredoc).bind_pure _
      | literal => exact .ofExcept (.ok _)
    | runtime name => cases kind <;> exact .ofExcept (.error _)
  | duplicate operator descriptor target => cases descriptor <;> exact .ofExcept (.error _)
  | close descriptor => cases descriptor <;> exact .ofExcept (.error _)

/-- Each redirection is what it becomes when it is resolved in the session by itself. -/
def ResolvedIn (session : Session Builtin) (rs rs' : List Redirection) : Prop :=
  rs.map (fun r => (r.resolve.outcome session).1) = rs'.map .ok

variable {s t : Session Builtin} {rs rs' : List Redirection}

theorem ResolvedIn.of_equivalent (h : Equivalent s t) (hrs : ResolvedIn s rs rs') :
    ResolvedIn t rs rs' :=
  (List.map_congr_left fun r _ => congruent_resolve r h.symm).trans hrs

/-- A redirection assigns nothing. -/
theorem equivalent_of_resolve {r r' : Redirection} (h : r.resolve.outcome s = (.ok r', t)) :
    Equivalent s t := by
  have hprogram : Program (σ := Builtin) (τ := Builtin) (fun _ _ => True) (fun _ => False)
      r.resolve r.resolve := r.program_resolve fun _ _ _ _ _ _ => trivial
  exact hprogram.equivalent (fun _ => id) h

theorem resolvedIn_of_resolveAll : ∀ {rs' : List Redirection} {s : Session Builtin},
    (resolveAll rs).outcome s = (.ok rs', t) → ResolvedIn s rs rs' := by
  induction rs with
  | nil =>
    rintro _ _ ⟨⟩
    rfl
  | cons r rs ih =>
    intro rs' s h
    obtain ⟨r', mid, hr, h⟩ := Attempt.outcome_bind_eq_ok.1 h
    obtain ⟨rest', _, hrest, h⟩ := Attempt.outcome_bind_eq_ok.1 h
    cases h
    -- the rest is resolved in `mid`, which answers as `s` does
    have hrs : ResolvedIn s rs rest' := (ih hrest).of_equivalent (equivalent_of_resolve hr).symm
    rw [ResolvedIn, List.map_cons, hr, hrs, List.map_cons]

end Redirection

/-! ## Compound commands -/

/-- The commands that have a body and redirections. -/
inductive CompoundKind
  | subshell
  | background
  | redirected
  | group
  deriving DecidableEq

namespace CompoundKind

def node : CompoundKind → Node → List Redirection → Node
  | subshell => .subshell
  | background => .background
  | redirected => .redirected
  | group => .group

/-- Whether the body runs in a process of its own. -/
def isIsolated : CompoundKind → Bool
  | subshell | background => true
  | redirected | group => false

section

variable {σ α : Type} [Oracle σ]

/-- What is done with the body, in a context where the body runs in a process of its own. -/
def onBody (kind : CompoundKind) (x : Attempt (Session σ) α) : Attempt (Session σ) α :=
  if kind.isIsolated then Session.inScope x else x

theorem resolveIn_node (kind : CompoundKind) (flow : Flow) (body : Node) (rs : List Redirection) :
    (kind.node body rs).resolveIn flow = (do
      let body ← kind.onBody (body.resolveIn flow)
      return kind.node body (← Redirection.resolveAll rs) : Attempt (Session σ) Node) := by
  cases kind <;> rfl

end

/-- A body that runs in a process of its own, or assigns nothing, does not change what the session
answers. -/
theorem equivalent_of_onBody {kind : CompoundKind} {flow : Flow} {body body' : Node}
    {s t : Session Builtin} (hbody : kind.isIsolated = true ∨ body.assigned = [])
    (h : (kind.onBody (body.resolveIn flow)).outcome s = (.ok body', t)) : Equivalent s t := by
  have hprogram : Program (σ := Builtin) (τ := Builtin) (fun _ _ => True) (· ∈ body.assigned)
      (body.resolveIn flow) (body.resolveIn flow) :=
    body.program_resolveIn flow (fun _ _ _ _ _ _ => trivial) fun _ hname => hname
  rw [onBody] at h
  split at h
  · exact Session.equivalent_of_inScope hprogram.balanced h
  · next hisolated =>
    have hassigned : body.assigned = [] := hbody.resolve_left hisolated
    refine hprogram.equivalent (fun name hname => ?_) h
    rw [hassigned] at hname
    cases hname

end CompoundKind

/-- **Redirections are resolved after the body.** Wherever a compound command stands in a tree that
is resolved, its redirections become what they are in the session after its body. They are what they
would have become before the body if that runs in a process of its own, whatever it assigns, or
assigns nothing. -/
theorem resolve_redirections {session after : Session Builtin} {node node' body : Node}
    {kind : CompoundKind} {rs : List Redirection} {path : List Nat}
    (h : node.resolve.outcome session = (.ok node', after))
    (hpart : node.part? path = some (kind.node body rs)) :
    ∃ flow start mid body' rs', (node.reach .always path).outcome session = (.ok flow, start) ∧
      (kind.onBody (body.resolveIn flow)).outcome start = (.ok body', mid) ∧
      node'.part? path = some (kind.node body' rs') ∧
      Redirection.ResolvedIn mid rs rs' ∧
      (kind.isIsolated = true ∨ body.assigned = [] → Redirection.ResolvedIn start rs rs') := by
  obtain ⟨part', hpart', flow, start, last, hreach, hresolve⟩ := Node.exists_part? h hpart
  rw [kind.resolveIn_node] at hresolve
  obtain ⟨body', mid, hbody, hresolve⟩ := Attempt.outcome_bind_eq_ok.1 hresolve
  obtain ⟨rs', _, hrs, hresolve⟩ := Attempt.outcome_bind_eq_ok.1 hresolve
  cases hresolve
  have hmid : Redirection.ResolvedIn mid rs rs' := Redirection.resolvedIn_of_resolveAll hrs
  refine ⟨flow, start, mid, body', rs', hreach, hbody, hpart', hmid, fun hcondition => ?_⟩
  exact hmid.of_equivalent (CompoundKind.equivalent_of_onBody hcondition hbody).symm

/-- A subshell that assigns the name of the file that its output goes to. -/
theorem resolve_redirections_of_subshell :
    let echo (w : Word) : Node := .command ⟨none, [], [.ofText "echo".toList, w], []⟩
    let body : Node := .command ⟨none, [⟨"log".toList, .ofText "inner".toList⟩], [], []⟩
    let append (target : Word) : List Redirection := [.file .append (.fixed 1) target]
    let node : Node := .sequence (echo (.ofText "\"$log\"".toList))
      (.subshell body (append (.ofText "$log".toList)))
    let node' : Node := .sequence (echo (.literal "outer".toList))
      (.subshell body (append (.literal "outer".toList)))
    let rs : List Redirection := append (.ofText "$log".toList)
    let session : Session Builtin :=
      { settings := {}, environment := {}
        host := { hasDirectory := fun _ => true, fileText := fun _ => none }
        live := some (
          { scope := { vars := Variables.ofList [("log".toList, { value := "outer".toList })] } },
          { path := [] }) }
    (node.resolve.outcome session = (.ok node', session) ∧
        node.part? [1] = some (CompoundKind.subshell.node body rs)) ∧
      ∃ flow start mid body' rs', (node.reach .always [1]).outcome session = (.ok flow, start) ∧
        (CompoundKind.subshell.onBody (body.resolveIn flow)).outcome start = (.ok body', mid) ∧
        node'.part? [1] = some (CompoundKind.subshell.node body' rs') ∧
        Redirection.ResolvedIn mid rs rs' ∧
        (CompoundKind.subshell.isIsolated = true ∨ body.assigned = [] →
          Redirection.ResolvedIn start rs rs') := by
  intro echo body append node node' rs session
  have hresolve : node.resolve.outcome session = (.ok node', session) := by cbv
  have hpart : node.part? [1] = some (CompoundKind.subshell.node body rs) := rfl
  exact ⟨⟨hresolve, hpart⟩, resolve_redirections hresolve hpart⟩

/-- The condition cannot be left out: a group appends to the file that its body names. -/
theorem exists_group_not_resolvedIn :
    ∃ (session after : Session Builtin) (body body' : Node) (rs rs' : List Redirection),
      (Node.group body rs).resolve.outcome session = (.ok (.group body' rs'), after) ∧
        ¬ Redirection.ResolvedIn session rs rs' := by
  let append (target : Word) : Redirection := .file .append (.fixed 1) target
  let body : Node := .command ⟨none, [⟨"log".toList, .ofText "inner".toList⟩], [], []⟩
  let log : Redirection := append (.ofText "$log".toList)
  let scope : Scope := { vars := Variables.ofList [("log".toList, { value := "outer".toList })] }
  let session : Session Builtin :=
    { settings := {}, environment := {}
      host := { hasDirectory := fun _ => true, fileText := fun _ => none }
      live := some ({ scope }, { path := [] }) }
  have hwritable : scope.vars.Writable := by
    intro name v h
    have hmem : (name, v) ∈ scope.vars.entries := (Variables.get?_eq_some_iff _ _ _).1 h
    cases List.mem_singleton.1 hmem
    rfl
  have hsettled : session.Settled { scope } := ⟨_, rfl, rfl⟩
  have hinner : ((Node.group body [log]).resolve.outcome session).1 =
      .ok (.group body [append (.literal "inner".toList)]) := by
    rw [(hsettled.mirrors hwritable).resolve]
    cbv
  have houter : (log.resolve.outcome session).1 = .ok (append (.literal "outer".toList)) := by
    cbv
  have hne : append (.literal "outer".toList) ≠ append (.literal "inner".toList) := by decide
  have hdiffers : ¬ Redirection.ResolvedIn session [log] [append (.literal "inner".toList)] := by
    intro h
    rw [Redirection.ResolvedIn, List.map_singleton, houter] at h
    exact hne (Except.ok.inj (List.singleton_inj.1 h))
  rcases hresolve : (Node.group body [log]).resolve.outcome session with ⟨result, after⟩
  rw [hresolve] at hinner
  cases hinner
  exact ⟨session, after, body, body, [log], _, hresolve, hdiffers⟩

end ShellFold
