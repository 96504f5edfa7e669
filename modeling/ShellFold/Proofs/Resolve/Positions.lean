import ShellFold.Proofs.Session.Program
import ShellFold.Resolve.Tree

/-!
# The positions of a tree

`Node.positions` lists the words of a tree that may be expanded, each with the mode that its place
asks for, and `Node.assigned` the names that a tree assigns to, but for its parts that run in a
process of their own. Resolving a tree is a program that has no other words expanded, and those only
if they pass the scanner, and that assigns to no other names (`Node.program_resolveIn`).
-/

set_option autoImplicit false

namespace ShellFold

/-! ## Positions -/

/-- The word of a redirection that may be expanded: literal bodies stay, and only files and bodies
on fixed descriptors can be resolved. -/
def Redirection.positions : Redirection → List (Word × Mode)
  | .file _ (.fixed _) target => [(target, .target)]
  | .heredoc .expanding (.fixed _) body => [(body, .heredoc)]
  | .heredoc .literal (.fixed _) _ => []
  | .duplicate _ (.fixed _) _ | .close (.fixed _) => []
  | .file _ (.runtime _) _ | .heredoc _ (.runtime _) _ | .duplicate _ (.runtime _) _
  | .close (.runtime _) => []

def Command.positions (c : Command) : List (Word × Mode) :=
  c.assignments.map (fun assignment => (assignment.value, .noSplit)) ++
    (c.arguments.map (fun w => (w, .split)) ++ c.redirections.flatMap Redirection.positions)

mutual

def Test.positions : Test → List (Word × Mode)
  | .mk operator left right _ =>
    operator.toList.map (fun w => (w, .noSplit)) ++
      (Operand.positions? left ++ Operand.positions? right)

def Operand.positions? : Option Operand → List (Word × Mode)
  | none => []
  | some (.word w) => [(w, .noSplit)]
  | some (.nested t) => t.positions

end

mutual

/-- The words of a tree that may be expanded, each with its mode, in the order in which they are
resolved. What binds variables is refused and has none. -/
def Node.positions : Node → List (Word × Mode)
  | .command c => c.positions
  | .pipe items _ => Node.positionsOf items
  | .subshell body redirections | .background body redirections | .redirected body redirections
  | .group body redirections => body.positions ++ redirections.flatMap Redirection.positions
  | .conjunction left right | .disjunction left right | .sequence left right =>
    left.positions ++ right.positions
  | .negation body | .timed _ body => body.positions
  | .whileLoop test body => test.positions ++ body.positions
  | .conditional condition thenBranch elseBranch =>
    condition.positions ++ (thenBranch.positions ++ Node.positions? elseBranch)
  | .caseOf argument arms => (argument, .noSplit) :: Arm.positions arms
  | .arithmetic body => body.map fun w => (w, .noSplit)
  | .test t => t.positions
  | .function .. | .forLoop .. | .select .. | .arithmeticFor .. | .coprocess .. => []

def Node.positionsOf : List Node → List (Word × Mode)
  | [] => []
  | node :: rest => node.positions ++ Node.positionsOf rest

def Node.positions? : Option Node → List (Word × Mode)
  | none => []
  | some node => node.positions

def Arm.positions : List Arm → List (Word × Mode)
  | [] => []
  | .mk patterns body :: rest =>
    patterns.map (fun w => (w, .noSplit)) ++ (Node.positions? body ++ Arm.positions rest)

end

mutual

/-- The names that a tree assigns to in the state it runs in. What runs in a process of its own
assigns to names there. -/
def Node.assigned : Node → List Text
  | .command c => c.assignments.map (·.name)
  | .pipe .. | .subshell .. | .background .. => []
  | .redirected body _ | .group body _ | .negation body | .timed _ body => body.assigned
  | .conjunction left right | .disjunction left right | .sequence left right =>
    left.assigned ++ right.assigned
  | .whileLoop test body => test.assigned ++ body.assigned
  | .conditional condition thenBranch elseBranch =>
    condition.assigned ++ (thenBranch.assigned ++ Node.assigned? elseBranch)
  | .caseOf _ arms => Arm.assigned arms
  | .arithmetic _ | .test _ => []
  | .function .. | .forLoop .. | .select .. | .arithmeticFor .. | .coprocess .. => []

def Node.assigned? : Option Node → List Text
  | none => []
  | some node => node.assigned

def Arm.assigned : List Arm → List Text
  | [] => []
  | .mk _ body :: rest => Node.assigned? body ++ Arm.assigned rest

end

/-! ## Words, redirections and conditional expressions -/

open Session

/-- What a word is written as for its mode may be expanded if the word passes the scanner. -/
def Word.Admits (Probes : Text → Mode → Prop) (position : Word × Mode) : Prop :=
  ∀ verdict s, position.1.scan = .ok verdict → position.1.sourceIn position.2 = .ok s →
    Probes s position.2

section

variable {σ τ : Type} [Oracle σ] [Oracle τ] {Probes : Text → Mode → Prop} {Records : Text → Prop}

theorem Word.program_resolveText {w : Word} {mode : Mode} {verdict : Verdict}
    (hscan : w.scan = .ok verdict) (h : Word.Admits Probes (w, mode)) :
    Program (σ := σ) (τ := τ) Probes Records (w.resolveText mode) (w.resolveText mode) :=
  .bind (.expand fun s hs => h verdict s hscan hs) fun _ => .ofExcept _

theorem Word.program_resolve {w : Word} {mode : Mode} (h : Word.Admits Probes (w, mode)) :
    Program (σ := σ) (τ := τ) Probes Records (w.resolve mode) (w.resolve mode) := by
  refine .ofExcept_bind fun verdict hscan => ?_
  cases verdict with
  | untouched => exact .pure w
  | expand => exact .bind (program_resolveText hscan h) fun _ => .pure _

theorem Word.program_resolveEach {mode : Mode} {ws : List Word}
    (h : ∀ p ∈ ws.map fun w => (w, mode), Word.Admits Probes p) :
    Program (σ := σ) (τ := τ) Probes Records (Word.resolveEach mode ws)
      (Word.resolveEach mode ws) := by
  induction ws with
  | nil => exact .pure []
  | cons w ws ih =>
    rw [List.map_cons, List.forall_mem_cons] at h
    exact .bind (program_resolve h.1) fun _ => .bind (ih h.2) fun _ => .pure _

theorem Word.program_mapM {operator : Option Word}
    (h : ∀ p ∈ operator.toList.map fun w => (w, Mode.noSplit), Word.Admits Probes p) :
    Program (σ := σ) (τ := τ) Probes Records (operator.mapM (Word.resolve .noSplit))
      (operator.mapM (Word.resolve .noSplit)) := by
  cases operator with
  | none => exact .pure none
  | some w =>
    show Program Probes Records (some <$> w.resolve .noSplit) (some <$> w.resolve .noSplit)
    rw [← bind_pure_comp, ← bind_pure_comp]
    exact .bind (program_resolve (h _ (.head _))) fun _ => .pure _

theorem Word.program_resolveArguments {ws : List Word}
    (h : ∀ p ∈ ws.map fun w => (w, Mode.split), Word.Admits Probes p) :
    Program (σ := σ) (τ := τ) Probes Records (Word.resolveArguments ws)
      (Word.resolveArguments ws) := by
  induction ws with
  | nil => exact .pure []
  | cons w ws ih =>
    rw [List.map_cons, List.forall_mem_cons] at h
    refine .bind (.ofExcept_bind fun verdict hscan => ?_) fun _ => .bind (ih h.2) fun _ => .pure _
    cases verdict with
    | untouched => exact .pure [w]
    | expand => exact .bind (.expand fun s hs => h.1 _ s hscan hs) fun _ => .pure _

theorem Word.program_resolveValue {w : Word} (h : Word.Admits Probes (w, .noSplit)) :
    Program (σ := σ) (τ := τ) Probes Records w.resolveValue w.resolveValue := by
  refine .ofExcept_bind fun verdict hscan => .ite (fun _ => .pure _) fun _ => ?_
  exact .bind (program_resolveText hscan h) fun _ => .pure _

theorem Redirection.program_resolve {r : Redirection}
    (h : ∀ p ∈ r.positions, Word.Admits Probes p) :
    Program (σ := σ) (τ := τ) Probes Records r.resolve r.resolve := by
  cases r with
  | file operator descriptor target =>
    cases descriptor with
    | fixed number => exact .bind (Word.program_resolve (h _ (.head _))) fun _ => .pure _
    | runtime name => exact .throw _
  | heredoc kind descriptor body =>
    cases descriptor with
    | fixed number =>
      cases kind with
      | expanding => exact .bind (Word.program_resolve (h _ (.head _))) fun _ => .pure _
      | literal => exact .pure _
    | runtime name => cases kind <;> exact .throw _
  | duplicate operator descriptor target => cases descriptor <;> exact .throw _
  | close descriptor => cases descriptor <;> exact .throw _

theorem Redirection.program_resolveAll {rs : List Redirection}
    (h : ∀ p ∈ rs.flatMap Redirection.positions, Word.Admits Probes p) :
    Program (σ := σ) (τ := τ) Probes Records (Redirection.resolveAll rs)
      (Redirection.resolveAll rs) := by
  induction rs with
  | nil => exact .pure []
  | cons r rs ih =>
    rw [List.flatMap_cons, List.forall_mem_append] at h
    exact .bind (program_resolve h.1) fun _ => .bind (ih h.2) fun _ => .pure _

theorem Assignment.program_recordAll {assignments : List Assignment}
    (h : ∀ p ∈ assignments.map fun assignment => (assignment.value, Mode.noSplit),
      Word.Admits Probes p)
    (hrecords : ∀ name ∈ assignments.map (·.name), Records name) :
    Program (σ := σ) (τ := τ) Probes Records (Assignment.recordAll assignments)
      (Assignment.recordAll assignments) := by
  induction assignments with
  | nil => exact .pure []
  | cons assignment rest ih =>
    rw [List.map_cons, List.forall_mem_cons] at h hrecords
    refine .bind (Word.program_resolveValue h.1) fun (word, value) => ?_
    refine .bind (.recordAssignment value hrecords.1) fun _ => ?_
    exact .bind (ih h.2 hrecords.2) fun _ => .pure _

theorem Command.program_recordAssignments (flow : Flow) {c : Command}
    (h : ∀ p ∈ c.assignments.map fun assignment => (assignment.value, Mode.noSplit),
      Word.Admits Probes p)
    (hrecords : ∀ name ∈ c.assignments.map (·.name), Records name) :
    Program (σ := σ) (τ := τ) Probes Records (c.recordAssignments flow)
      (c.recordAssignments flow) := by
  refine .ite (fun _ => .pure []) fun _ => .accepting fun s t haccepts => ?_
  rw [haccepts]
  exact .guard _ (.guard _ (.guard _ (Assignment.program_recordAll h hrecords)))

theorem Command.program_resolve (flow : Flow) {c : Command}
    (h : ∀ p ∈ c.positions, Word.Admits Probes p)
    (hrecords : ∀ name ∈ c.assignments.map (·.name), Records name) :
    Program (σ := σ) (τ := τ) Probes Records (c.resolve flow) (c.resolve flow) := by
  rw [positions, List.forall_mem_append, List.forall_mem_append] at h
  refine .bind (c.program_recordAssignments flow h.1 hrecords) fun _ => ?_
  refine .bind (Word.program_resolveArguments h.2.1) fun _ => ?_
  exact .bind (Redirection.program_resolveAll h.2.2) fun _ => .pure _

mutual

theorem Test.program_resolve : ∀ {t : Test}, (∀ p ∈ t.positions, Word.Admits Probes p) →
    Program (σ := σ) (τ := τ) Probes Records t.resolve t.resolve
  | .mk operator left right invert, h => by
    rw [Test.positions, List.forall_mem_append, List.forall_mem_append] at h
    rw [Test.resolve, Test.resolve]
    refine .bind (Word.program_mapM h.1) fun _ => ?_
    refine .bind (Operand.program_resolve? h.2.1) fun _ => ?_
    exact .bind (Operand.program_resolve? h.2.2) fun _ => .pure _

theorem Operand.program_resolve? : ∀ {o : Option Operand},
    (∀ p ∈ Operand.positions? o, Word.Admits Probes p) →
    Program (σ := σ) (τ := τ) Probes Records (Operand.resolve? o) (Operand.resolve? o)
  | none, _ => .pure none
  | some (.word _), h => .bind (Word.program_resolve (h _ (.head _))) fun _ => .pure _
  | some (.nested _), h => .bind (Test.program_resolve h) fun _ => .pure _

end

end

/-! ## Trees -/

section

variable {σ τ : Type} [Oracle σ] [Oracle τ] {Probes : Text → Mode → Prop}

mutual

theorem Node.program_resolveIn : ∀ (flow : Flow) (node : Node) {Records : Text → Prop},
    (∀ p ∈ node.positions, Word.Admits Probes p) → (∀ name ∈ node.assigned, Records name) →
    Program (σ := σ) (τ := τ) Probes Records (node.resolveIn flow) (node.resolveIn flow)
  | flow, .command c, _, h, hrecords => .bind (c.program_resolve flow h hrecords) fun _ => .pure _
  | flow, .pipe items _, _, h, _ => .bind (Node.program_resolveStages flow items h) fun _ => .pure _
  | flow, .subshell body _, _, h, _ => by
    rw [Node.positions, List.forall_mem_append] at h
    refine .bind (.inScope (Node.program_resolveIn flow body h.1 fun _ _ => trivial)) fun _ => ?_
    exact .bind (Redirection.program_resolveAll h.2) fun _ => .pure _
  | flow, .background body _, _, h, _ => by
    rw [Node.positions, List.forall_mem_append] at h
    refine .bind (.inScope (Node.program_resolveIn flow body h.1 fun _ _ => trivial)) fun _ => ?_
    exact .bind (Redirection.program_resolveAll h.2) fun _ => .pure _
  | flow, .conjunction left right, _, h, hrecords => by
    rw [Node.positions, List.forall_mem_append] at h
    rw [Node.assigned, List.forall_mem_append] at hrecords
    refine .bind (Node.program_resolveIn flow left h.1 hrecords.1) fun _ => ?_
    exact .bind (Node.program_resolveIn .perhaps right h.2 hrecords.2) fun _ => .pure _
  | flow, .disjunction left right, _, h, hrecords => by
    rw [Node.positions, List.forall_mem_append] at h
    rw [Node.assigned, List.forall_mem_append] at hrecords
    refine .bind (Node.program_resolveIn flow left h.1 hrecords.1) fun _ => ?_
    exact .bind (Node.program_resolveIn .perhaps right h.2 hrecords.2) fun _ => .pure _
  | flow, .sequence left right, _, h, hrecords => by
    rw [Node.positions, List.forall_mem_append] at h
    rw [Node.assigned, List.forall_mem_append] at hrecords
    refine .bind (Node.program_resolveIn flow left h.1 hrecords.1) fun _ => ?_
    exact .bind (Node.program_resolveIn flow right h.2 hrecords.2) fun _ => .pure _
  | _, .negation body, _, h, hrecords =>
    .bind (Node.program_resolveIn .perhaps body h hrecords) fun _ => .pure _
  | flow, .redirected body _, _, h, hrecords => by
    rw [Node.positions, List.forall_mem_append] at h
    refine .bind (Node.program_resolveIn flow body h.1 hrecords) fun _ => ?_
    exact .bind (Redirection.program_resolveAll h.2) fun _ => .pure _
  | flow, .group body _, _, h, hrecords => by
    rw [Node.positions, List.forall_mem_append] at h
    refine .bind (Node.program_resolveIn flow body h.1 hrecords) fun _ => ?_
    exact .bind (Redirection.program_resolveAll h.2) fun _ => .pure _
  | flow, .timed _ command, _, h, hrecords =>
    .bind (Node.program_resolveIn flow command h hrecords) fun _ => .pure _
  | _, .whileLoop test body, _, h, hrecords => by
    rw [Node.positions, List.forall_mem_append] at h
    rw [Node.assigned, List.forall_mem_append] at hrecords
    refine .bind (Node.program_resolveIn .perhaps test h.1 hrecords.1) fun _ => ?_
    exact .bind (Node.program_resolveIn .perhaps body h.2 hrecords.2) fun _ => .pure _
  | flow, .conditional condition thenBranch elseBranch, _, h, hrecords => by
    rw [Node.positions, List.forall_mem_append, List.forall_mem_append] at h
    rw [Node.assigned, List.forall_mem_append, List.forall_mem_append] at hrecords
    refine .bind (Node.program_resolveIn flow condition h.1 hrecords.1) fun _ => ?_
    refine .bind (Node.program_resolveIn .perhaps thenBranch h.2.1 hrecords.2.1) fun _ => ?_
    exact .bind (Node.program_resolve? elseBranch h.2.2 hrecords.2.2) fun _ => .pure _
  | _, .caseOf argument arms, _, h, hrecords => by
    rw [Node.positions, List.forall_mem_cons] at h
    refine .bind (Word.program_resolve h.1) fun _ => ?_
    exact .bind (Arm.program_resolveAll arms h.2 hrecords) fun _ => .pure _
  | _, .arithmetic body, _, h, _ => .bind (Word.program_resolveEach h) fun _ => .pure _
  | _, .test t, _, h, _ => .bind (t.program_resolve h) fun _ => .pure _
  | _, .function _ _, _, _, _ => .throw _
  | _, .forLoop _ _ _, _, _, _ => .throw _
  | _, .select _ _ _, _, _, _ => .throw _
  | _, .arithmeticFor _ _ _ _, _, _, _ => .throw _
  | _, .coprocess _ _, _, _, _ => .throw _

theorem Node.program_resolveStages : ∀ (flow : Flow) (nodes : List Node) {Records : Text → Prop},
    (∀ p ∈ Node.positionsOf nodes, Word.Admits Probes p) →
    Program (σ := σ) (τ := τ) Probes Records (Node.resolveStages flow nodes)
      (Node.resolveStages flow nodes)
  | _, [], _, _ => .pure []
  | flow, node :: rest, _, h => by
    rw [Node.positionsOf, List.forall_mem_append] at h
    refine .bind (.inScope (Node.program_resolveIn flow node h.1 fun _ _ => trivial)) fun _ => ?_
    exact .bind (Node.program_resolveStages flow rest h.2) fun _ => .pure _

theorem Node.program_resolve? : ∀ (node : Option Node) {Records : Text → Prop},
    (∀ p ∈ Node.positions? node, Word.Admits Probes p) →
    (∀ name ∈ Node.assigned? node, Records name) →
    Program (σ := σ) (τ := τ) Probes Records (Node.resolve? node) (Node.resolve? node)
  | none, _, _, _ => .pure none
  | some node, _, h, hrecords =>
    .bind (Node.program_resolveIn .perhaps node h hrecords) fun _ => .pure _

theorem Arm.program_resolveAll : ∀ (arms : List Arm) {Records : Text → Prop},
    (∀ p ∈ Arm.positions arms, Word.Admits Probes p) →
    (∀ name ∈ Arm.assigned arms, Records name) →
    Program (σ := σ) (τ := τ) Probes Records (Arm.resolveAll arms) (Arm.resolveAll arms)
  | [], _, _, _ => .pure []
  | .mk patterns body :: rest, _, h, hrecords => by
    rw [Arm.positions, List.forall_mem_append, List.forall_mem_append] at h
    rw [Arm.assigned, List.forall_mem_append] at hrecords
    refine .bind (Word.program_resolveEach h.1) fun _ => ?_
    refine .bind (Node.program_resolve? body h.2.1 hrecords.1) fun _ => ?_
    exact .bind (Arm.program_resolveAll rest h.2.2 hrecords.2) fun _ => .pure _

end

/-- The text is what a word of the tree that passes the scanner is written as, in the mode that the
place of the word asks for. -/
def Node.Probed (node : Node) (s : Text) (mode : Mode) : Prop :=
  ∃ w, (w, mode) ∈ node.positions ∧ (∃ verdict, w.scan = .ok verdict) ∧ w.sourceIn mode = .ok s

theorem Node.program_resolve (node : Node) :
    Program (σ := σ) (τ := τ) node.Probed (· ∈ node.assigned) node.resolve node.resolve :=
  node.program_resolveIn .always
    (fun position hposition verdict _ hscan hsource =>
      ⟨position.1, hposition, ⟨verdict, hscan⟩, hsource⟩)
    fun _ hname => hname

end

end ShellFold
