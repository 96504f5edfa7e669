import ShellFold.Proofs.Attempt
import ShellFold.Resolve.Tree

/-!
# The parts of a tree

A node below the root of a tree is reached by a path, the numbers of the parts that lead to it.
`Node.reach` carries out what is resolved before the node at a path and ends in the session that the
node is resolved in. A tree that is resolved becomes one of the same shape, with what its parts
become in these sessions (`Node.exists_part?`).
-/

set_option autoImplicit false

namespace ShellFold

/-! ## Paths -/

def Arm.body? : Arm → Option Node
  | .mk _ body => body

/-- The nodes directly below a node, in the order in which they are resolved. -/
def Node.parts : Node → List Node
  | .command _ | .arithmetic _ | .test _ => []
  | .pipe items _ => items
  | .subshell body _ | .background body _ | .redirected body _ | .group body _ => [body]
  | .conjunction left right | .disjunction left right | .sequence left right => [left, right]
  | .negation body | .timed _ body => [body]
  | .whileLoop condition body => [condition, body]
  | .conditional condition thenBranch elseBranch => condition :: thenBranch :: elseBranch.toList
  | .caseOf _ arms => arms.filterMap Arm.body?
  | .function _ body | .forLoop _ _ body | .select _ _ body | .arithmeticFor _ _ _ body
  | .coprocess _ body => [body]

/-- Whether a node binds variables in a way that the oracle cannot know. -/
def Node.binds : Node → Bool
  | .function .. | .forLoop .. | .select .. | .arithmeticFor .. | .coprocess .. => true
  | _ => false

/-- The node at the end of a path. -/
def Node.part? : Node → List Nat → Option Node
  | node, [] => some node
  | node, i :: path =>
    match node.parts[i]? with
    | some part => part.part? path
    | none => none

section

variable {σ : Type} [Oracle σ]

/-- Resolves the arms of a case up to the body of a given number. -/
def Arm.approach : List Arm → Nat → Attempt (Session σ) Flow
  | [], _ => return .perhaps
  | .mk patterns none :: rest, i => do
    let _ ← Word.resolveEach .noSplit patterns
    Arm.approach rest i
  | .mk patterns (some _) :: _, 0 => do
    let _ ← Word.resolveEach .noSplit patterns
    return .perhaps
  | .mk patterns (some body) :: rest, i + 1 => do
    let _ ← Word.resolveEach .noSplit patterns
    let _ ← body.resolveIn .perhaps
    Arm.approach rest i

/-- Resolves a node up to its part of a given number, and yields the flow that the part runs
under. -/
def Node.approach (flow : Flow) : Node → Nat → Attempt (Session σ) Flow
  | .pipe items _, i => do
    let _ ← Node.resolveStages flow (items.take i)
    Session.enterScope
    return flow
  | .subshell _ _, _ | .background _ _, _ => do
    Session.enterScope
    return flow
  | .sequence left _, _ + 1 => do
    let _ ← left.resolveIn flow
    return flow
  | .conjunction left _, _ + 1 | .disjunction left _, _ + 1 => do
    let _ ← left.resolveIn flow
    return .perhaps
  | .negation _, _ | .whileLoop _ _, 0 => return .perhaps
  | .whileLoop condition _, _ + 1 => do
    let _ ← condition.resolveIn .perhaps
    return .perhaps
  | .conditional condition _ _, 1 => do
    let _ ← condition.resolveIn flow
    return .perhaps
  | .conditional condition thenBranch _, _ + 2 => do
    let _ ← condition.resolveIn flow
    let _ ← thenBranch.resolveIn .perhaps
    return .perhaps
  | .caseOf argument arms, i => do
    let _ ← argument.resolve .noSplit
    Arm.approach arms i
  | _, _ => return flow

/-- Resolves a tree up to the node at a path, and yields the flow that the node runs under. -/
def Node.reach : Flow → Node → List Nat → Attempt (Session σ) Flow
  | flow, _, [] => return flow
  | flow, node, i :: path => do
    let flow ← node.approach flow i
    match node.parts[i]? with
    | some part => part.reach flow path
    | none => return flow

/-! ## Contexts -/

/-- An attempt succeeds in a context that can be entered and left. -/
theorem Session.inScope_ok {α : Type} {body : Attempt (Session σ) α}
    {session entered last after : Session σ} {a : α}
    (henter : enterScope.outcome session = (.ok (), entered))
    (hbody : body.outcome entered = (.ok a, last))
    (hleave : leaveScope.outcome last = (.ok (), after)) :
    (inScope body).outcome session = (.ok a, after) := by
  have hresult : body.observe.outcome entered = (.ok (.ok a), last) := by
    rw [Attempt.outcome_observe, hbody]
  have hleft : leaveScope.observe.outcome last = (.ok (.ok ()), after) := by
    rw [Attempt.outcome_observe, hleave]
  rw [inScope, Attempt.outcome_bind_ok henter, Attempt.outcome_bind_ok hresult,
    Attempt.outcome_bind_ok hleft]
  rfl

/-- An attempt in a context that succeeds: the context is entered, the attempt succeeds in it, and
the context is left. -/
theorem Session.inScope_eq_ok {α : Type} {body : Attempt (Session σ) α}
    {session after : Session σ} {a : α} (h : (inScope body).outcome session = (.ok a, after)) :
    ∃ entered last, enterScope.outcome session = (.ok (), entered) ∧
      body.outcome entered = (.ok a, last) ∧ leaveScope.outcome last = (.ok (), after) := by
  obtain ⟨⟨⟩, entered, henter, hobserve⟩ := Attempt.outcome_bind_eq_ok.1 h
  obtain ⟨result, last, hbody, hrest⟩ := Attempt.outcome_bind_eq_ok.1 hobserve
  obtain ⟨left, final, hleave, hresult⟩ := Attempt.outcome_bind_eq_ok.1 hrest
  rw [Attempt.outcome_observe, Prod.mk.injEq, Except.ok.injEq] at hbody hleave
  obtain ⟨rfl, rfl⟩ := hbody
  obtain ⟨rfl, rfl⟩ := hleave
  refine ⟨entered, (body.outcome entered).2, henter, ?_⟩
  rcases hout : body.outcome entered with ⟨e | b, last⟩
  · rw [hout] at hresult
    cases hresult
  rw [hout] at hresult
  rcases hleft : leaveScope.outcome last with ⟨e | ⟨⟩, final⟩
  · rw [hleft] at hresult
    cases hresult
  · rw [hleft] at hresult
    cases hresult
    exact ⟨rfl, rfl⟩

/-! ## Parts -/

/-- The part is resolved in the session that the attempt ends in, under the flow it yields. -/
def Node.ResolvedAfter (approach : Attempt (Session σ) Flow) (session : Session σ)
    (part part' : Node) : Prop :=
  ∃ flow start last, approach.outcome session = (.ok flow, start) ∧
    (part.resolveIn flow).outcome start = (.ok part', last)

namespace Node.ResolvedAfter

variable {α : Type} {flow : Flow} {session mid : Session σ} {part part' : Node}

theorem pure {last : Session σ} (h : (part.resolveIn flow).outcome session = (.ok part', last)) :
    ResolvedAfter (Pure.pure flow) session part part' := ⟨flow, session, last, rfl, h⟩

theorem bind {x : Attempt (Session σ) α} {a : α} {f : α → Attempt (Session σ) Flow}
    (hx : x.outcome session = (.ok a, mid)) (h : ResolvedAfter (f a) mid part part') :
    ResolvedAfter (x >>= f) session part part' := by
  obtain ⟨flow, start, last, happroach, hpart⟩ := h
  exact ⟨flow, start, last, by rw [Attempt.outcome_bind_ok hx, happroach], hpart⟩

end Node.ResolvedAfter

open Attempt (outcome_bind_eq_ok)

theorem Node.exists_stage {flow : Flow} {items : List Node} : ∀ {items' : List Node} {i : Nat}
    {part : Node} {session after : Session σ} (background : Bool),
    (Node.resolveStages flow items).outcome session = (.ok items', after) →
    items[i]? = some part → ∃ part', items'[i]? = some part' ∧
      Node.ResolvedAfter (Node.approach flow (.pipe items background) i) session part part' := by
  induction items with
  | nil =>
    intro _ i _ _ _ _ _ hi
    cases hi
  | cons item items ih =>
    intro items' i part session after background h hi
    obtain ⟨item', mid, hitem, h⟩ := outcome_bind_eq_ok.1 h
    obtain ⟨rest', last, hrest, h⟩ := outcome_bind_eq_ok.1 h
    cases h
    cases i with
    | zero =>
      cases hi
      obtain ⟨entered, last, henter, hbody, -⟩ := Session.inScope_eq_ok hitem
      exact ⟨item', rfl, .bind rfl (.bind henter (.pure hbody))⟩
    | succ i =>
      obtain ⟨part', hpart', flow', start, last, happroach, hpart⟩ := ih background hrest hi
      obtain ⟨done, stage, hdone, henter⟩ := outcome_bind_eq_ok.1 happroach
      have hstages : (Node.resolveStages flow ((item :: items).take (i + 1))).outcome session =
          (.ok (item' :: done), stage) := by
        show (Session.inScope (item.resolveIn flow) >>= fun node =>
          Node.resolveStages flow (items.take i) >>= fun rest =>
            pure (node :: rest)).outcome session = _
        rw [Attempt.outcome_bind_ok hitem, Attempt.outcome_bind_ok hdone]
        rfl
      exact ⟨part', hpart', .bind hstages ⟨flow', start, last, henter, hpart⟩⟩

theorem Arm.exists_body {arms : List Arm} : ∀ {arms' : List Arm} {i : Nat} {part : Node}
    {session after : Session σ}, (Arm.resolveAll arms).outcome session = (.ok arms', after) →
    (arms.filterMap Arm.body?)[i]? = some part →
    ∃ part', (arms'.filterMap Arm.body?)[i]? = some part' ∧
      Node.ResolvedAfter (Arm.approach arms i) session part part' := by
  induction arms with
  | nil =>
    intro _ i _ _ _ _ hi
    cases hi
  | cons arm arms ih =>
    obtain ⟨patterns, body⟩ := arm
    intro arms' i part session after h hi
    obtain ⟨patterns', mid, hpatterns, h⟩ := outcome_bind_eq_ok.1 h
    obtain ⟨body', stage, hbody, h⟩ := outcome_bind_eq_ok.1 h
    obtain ⟨rest', last, hrest, h⟩ := outcome_bind_eq_ok.1 h
    cases h
    cases body with
    | none =>
      cases hbody
      obtain ⟨part', hpart', hafter⟩ := ih hrest hi
      exact ⟨part', hpart', .bind hpatterns hafter⟩
    | some body =>
      obtain ⟨body', _, hbody, h⟩ := outcome_bind_eq_ok.1 hbody
      cases h
      cases i with
      | zero =>
        cases hi
        exact ⟨body', rfl, .bind hpatterns (.pure hbody)⟩
      | succ i =>
        obtain ⟨part', hpart', hafter⟩ := ih hrest hi
        exact ⟨part', hpart', .bind hpatterns (.bind hbody hafter)⟩

/-- A part of a node is resolved after those before it, and takes its place in what the node
becomes. -/
theorem Node.exists_part {flow : Flow} {node node' part : Node} {i : Nat}
    {session after : Session σ} (h : (node.resolveIn flow).outcome session = (.ok node', after))
    (hi : node.parts[i]? = some part) :
    ∃ part', node'.parts[i]? = some part' ∧
      Node.ResolvedAfter (node.approach flow i) session part part' := by
  cases node with
  | command _ | arithmetic _ | test _ => cases hi
  | pipe items background =>
    obtain ⟨items', _, hitems, h⟩ := outcome_bind_eq_ok.1 h
    cases h
    exact Node.exists_stage background hitems hi
  | subshell body redirections | background body redirections =>
    obtain ⟨body', _, hbody, h⟩ := outcome_bind_eq_ok.1 h
    obtain ⟨redirections', _, -, h⟩ := outcome_bind_eq_ok.1 h
    cases h
    obtain ⟨entered, _, henter, hbody, -⟩ := Session.inScope_eq_ok hbody
    match i, hi with
    | 0, rfl => exact ⟨body', rfl, .bind henter (.pure hbody)⟩
  | conjunction left right | disjunction left right | sequence left right =>
    obtain ⟨left', _, hleft, h⟩ := outcome_bind_eq_ok.1 h
    obtain ⟨right', _, hright, h⟩ := outcome_bind_eq_ok.1 h
    cases h
    match i, hi with
    | 0, rfl => exact ⟨left', rfl, .pure hleft⟩
    | 1, rfl => exact ⟨right', rfl, .bind hleft (.pure hright)⟩
  | negation body | timed _ body =>
    obtain ⟨body', _, hbody, h⟩ := outcome_bind_eq_ok.1 h
    cases h
    match i, hi with
    | 0, rfl => exact ⟨body', rfl, .pure hbody⟩
  | redirected body redirections | group body redirections =>
    obtain ⟨body', _, hbody, h⟩ := outcome_bind_eq_ok.1 h
    obtain ⟨redirections', _, -, h⟩ := outcome_bind_eq_ok.1 h
    cases h
    match i, hi with
    | 0, rfl => exact ⟨body', rfl, .pure hbody⟩
  | whileLoop condition body =>
    obtain ⟨condition', _, hcondition, h⟩ := outcome_bind_eq_ok.1 h
    obtain ⟨body', _, hbody, h⟩ := outcome_bind_eq_ok.1 h
    cases h
    match i, hi with
    | 0, rfl => exact ⟨condition', rfl, .pure hcondition⟩
    | 1, rfl => exact ⟨body', rfl, .bind hcondition (.pure hbody)⟩
  | conditional condition thenBranch elseBranch =>
    obtain ⟨condition', _, hcondition, h⟩ := outcome_bind_eq_ok.1 h
    obtain ⟨then', _, hthen, h⟩ := outcome_bind_eq_ok.1 h
    obtain ⟨else', _, helse, h⟩ := outcome_bind_eq_ok.1 h
    cases h
    match i, hi with
    | 0, rfl => exact ⟨condition', rfl, .pure hcondition⟩
    | 1, rfl => exact ⟨then', rfl, .bind hcondition (.pure hthen)⟩
    | i + 2, hi =>
      cases elseBranch with
      | none => cases hi
      | some branch =>
        obtain ⟨branch', _, hbranch, helse⟩ := outcome_bind_eq_ok.1 helse
        cases helse
        match i, hi with
        | 0, rfl => exact ⟨branch', rfl, .bind hcondition (.bind hthen (.pure hbranch))⟩
  | caseOf argument arms =>
    obtain ⟨argument', _, hargument, h⟩ := outcome_bind_eq_ok.1 h
    obtain ⟨arms', _, harms, h⟩ := outcome_bind_eq_ok.1 h
    cases h
    obtain ⟨part', hpart', hafter⟩ := Arm.exists_body harms hi
    exact ⟨part', hpart', .bind hargument hafter⟩
  -- what binds variables is refused
  | function _ _ | forLoop _ _ _ | select _ _ _ | arithmeticFor _ _ _ _ | coprocess _ _ => cases h

/-- **A tree is resolved part by part.** The node at a path is resolved in the session that is
reached on the way to it, and what it becomes stands at the same path of the resolved tree. -/
theorem Node.exists_part? {path : List Nat} : ∀ {flow : Flow} {node node' part : Node}
    {session after : Session σ}, (node.resolveIn flow).outcome session = (.ok node', after) →
    node.part? path = some part → ∃ part', node'.part? path = some part' ∧
      Node.ResolvedAfter (node.reach flow path) session part part' := by
  induction path with
  | nil =>
    intro flow node node' part session after h hpart
    cases hpart
    exact ⟨node', rfl, .pure h⟩
  | cons i path ih =>
    intro flow node node' part session after h hpart
    rw [Node.part?] at hpart
    split at hpart
    · next child hi =>
      obtain ⟨child', hi', flow', start, last, happroach, hchild⟩ := Node.exists_part h hi
      obtain ⟨part', hpart', hafter⟩ := ih hchild hpart
      refine ⟨part', ?_, ?_⟩
      · rw [Node.part?, hi']
        exact hpart'
      · rw [Node.reach, hi]
        exact .bind happroach hafter
    · cases hpart

end

end ShellFold
