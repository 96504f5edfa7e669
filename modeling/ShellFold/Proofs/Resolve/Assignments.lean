import ShellFold.Builtin
import ShellFold.Proofs.Resolve.Guards
import ShellFold.Proofs.Resolve.Positions
import ShellFold.Proofs.Session.Trace

/-!
# The assignments of a tree

`Node.assignments` lists the assignments of a tree from left to right, and `Node.actions` what
resolving the tree does with the journal, as far as it succeeds: each word that is expanded is a
question, each part that runs in a process of its own is a context, and each assignment is recorded
once its value is known (`Node.recorder_resolveIn`). So a tree that is resolved has had each of its
assignments recorded once, in order, and has none that might not run (`resolve_records`).
-/

set_option autoImplicit false

namespace ShellFold

open Journal (Action asked inContext recorded)

mutual

/-- The assignments of a tree from left to right, also of what binds variables. -/
def Node.assignments : Node → List Assignment
  | .command c => c.assignments
  | .pipe items _ => Node.assignmentsOf items
  | .subshell body _ | .background body _ | .redirected body _ | .group body _ | .negation body
  | .timed _ body => body.assignments
  | .conjunction left right | .disjunction left right | .sequence left right =>
    left.assignments ++ right.assignments
  | .whileLoop test body => test.assignments ++ body.assignments
  | .conditional condition thenBranch elseBranch =>
    condition.assignments ++ (thenBranch.assignments ++ Node.assignments? elseBranch)
  | .caseOf _ arms => Arm.assignments arms
  | .arithmetic _ | .test _ => []
  | .function _ body | .forLoop _ _ body | .select _ _ body | .arithmeticFor _ _ _ body
  | .coprocess _ body => body.assignments

def Node.assignmentsOf : List Node → List Assignment
  | [] => []
  | node :: rest => node.assignments ++ Node.assignmentsOf rest

def Node.assignments? : Option Node → List Assignment
  | none => []
  | some node => node.assignments

def Arm.assignments : List Arm → List Assignment
  | [] => []
  | .mk _ body :: rest => Node.assignments? body ++ Arm.assignments rest

end

/-! ## Actions -/

namespace Word

/-- The number of questions by which a word is resolved, if it can be. -/
def questions (w : Word) : Nat :=
  match w.scan with
  | .ok .expand => 1
  | _ => 0

/-- The number of questions by which an assigned value is found. -/
def valueQuestions (w : Word) : Nat :=
  match w.scan with
  | .ok verdict => if w.isPlain verdict then 0 else 1
  | .error _ => 0

/-- The number of questions by which words at some positions are resolved. -/
def questionsAt : List (Word × Mode) → Nat
  | [] => 0
  | p :: ps => p.1.questions + questionsAt ps

theorem questionsAt_append (ps qs : List (Word × Mode)) :
    questionsAt (ps ++ qs) = questionsAt ps + questionsAt qs := by
  induction ps with
  | nil => exact (Nat.zero_add _).symm
  | cons p ps ih => rw [List.cons_append, questionsAt, questionsAt, ih, Nat.add_assoc]

end Word

/-- What redirections do with the journal. -/
def Redirection.actions (rs : List Redirection) : List (Action Text) :=
  asked (Word.questionsAt (rs.flatMap positions))

def Assignment.actions (a : Assignment) : List (Action Text) :=
  asked a.value.valueQuestions ++ [.record a.name]

def Command.actions (c : Command) : List (Action Text) :=
  c.assignments.flatMap Assignment.actions ++
    asked (Word.questionsAt (c.arguments.map fun w => (w, .split))) ++
      Redirection.actions c.redirections

mutual

/-- What resolving a tree does with the journal, if it can be resolved, with the names of the
assignments. -/
def Node.actions : Node → List (Action Text)
  | .command c => c.actions
  | .pipe items _ => Node.actionsOf items
  | .subshell body redirections | .background body redirections =>
    inContext body.actions ++ Redirection.actions redirections
  | .redirected body redirections | .group body redirections =>
    body.actions ++ Redirection.actions redirections
  | .conjunction left right | .disjunction left right | .sequence left right =>
    left.actions ++ right.actions
  | .negation body | .timed _ body => body.actions
  | .whileLoop test body => test.actions ++ body.actions
  | .conditional condition thenBranch elseBranch =>
    condition.actions ++ (thenBranch.actions ++ Node.actions? elseBranch)
  | .caseOf argument arms => asked argument.questions ++ Arm.actions arms
  | .arithmetic body => asked (Word.questionsAt (body.map fun w => (w, .noSplit)))
  | .test t => asked (Word.questionsAt t.positions)
  | .function _ body | .forLoop _ _ body | .select _ _ body | .arithmeticFor _ _ _ body
  | .coprocess _ body => body.actions

def Node.actionsOf : List Node → List (Action Text)
  | [] => []
  | node :: rest => inContext node.actions ++ Node.actionsOf rest

def Node.actions? : Option Node → List (Action Text)
  | none => []
  | some node => node.actions

def Arm.actions : List Arm → List (Action Text)
  | [] => []
  | .mk patterns body :: rest =>
    asked (Word.questionsAt (patterns.map fun w => (w, .noSplit))) ++
      (Node.actions? body ++ Arm.actions rest)

end

theorem Assignment.recorded_actions (assignments : List Assignment) :
    recorded (assignments.flatMap actions) = assignments.map (·.name) := by
  induction assignments with
  | nil => rfl
  | cons assignment rest ih =>
    rw [List.flatMap_cons, Journal.recorded_append, ih, actions, Journal.recorded_append,
      Journal.recorded_asked]
    rfl

theorem Redirection.recorded_actions (rs : List Redirection) : recorded (actions rs) = [] :=
  Journal.recorded_asked

mutual

/-- The actions of a tree record its assignments, in order. -/
theorem Node.recorded_actions : ∀ node : Node,
    recorded node.actions = node.assignments.map (·.name)
  | .command c => by
    simp [Node.actions, Node.assignments, Command.actions, Journal.recorded_append,
      Assignment.recorded_actions, Redirection.recorded_actions]
  | .pipe items _ => by
    rw [Node.actions, Node.assignments, Node.recorded_actionsOf items]
  | .subshell body _ | .background body _ => by
    simp [Node.actions, Node.assignments, Journal.recorded_append, Redirection.recorded_actions,
      Node.recorded_actions body]
  | .redirected body _ | .group body _ => by
    simp [Node.actions, Node.assignments, Journal.recorded_append, Redirection.recorded_actions,
      Node.recorded_actions body]
  | .conjunction left right | .disjunction left right | .sequence left right
  | .whileLoop left right => by
    rw [Node.actions, Node.assignments, Journal.recorded_append, Node.recorded_actions left,
      Node.recorded_actions right, List.map_append]
  | .negation body | .timed _ body | .function _ body | .forLoop _ _ body | .select _ _ body
  | .arithmeticFor _ _ _ body | .coprocess _ body => by
    rw [Node.actions, Node.assignments, Node.recorded_actions body]
  | .conditional condition thenBranch elseBranch => by
    simp only [Node.actions, Node.assignments, Journal.recorded_append, List.map_append,
      Node.recorded_actions condition, Node.recorded_actions thenBranch,
      Node.recorded_actions? elseBranch]
  | .caseOf _ arms => by
    simp [Node.actions, Node.assignments, Journal.recorded_append, Arm.recorded_actions arms]
  | .arithmetic _ | .test _ => Journal.recorded_asked

theorem Node.recorded_actionsOf : ∀ nodes : List Node,
    recorded (Node.actionsOf nodes) = (Node.assignmentsOf nodes).map (·.name)
  | [] => rfl
  | node :: rest => by
    rw [Node.actionsOf, Node.assignmentsOf, Journal.recorded_append, Journal.recorded_inContext,
      Node.recorded_actions node, Node.recorded_actionsOf rest, List.map_append]

theorem Node.recorded_actions? : ∀ node : Option Node,
    recorded (Node.actions? node) = (Node.assignments? node).map (·.name)
  | none => rfl
  | some node => Node.recorded_actions node

theorem Arm.recorded_actions : ∀ arms : List Arm,
    recorded (Arm.actions arms) = (Arm.assignments arms).map (·.name)
  | [] => rfl
  | .mk patterns body :: rest => by
    rw [Arm.actions, Arm.assignments, Journal.recorded_append, Journal.recorded_append,
      Journal.recorded_asked, Node.recorded_actions? body, Arm.recorded_actions rest,
      List.map_append]
    rfl

end

/-! ## Words, redirections and conditional expressions -/

open Session (Asks Leads Records Recorder)
open Attempt (outcome_bind_eq_ok)

section

variable {σ : Type} [Oracle σ]

theorem Word.asks_resolveText (w : Word) (mode : Mode) : Asks (σ := σ) 1 (w.resolveText mode) :=
  .bind (.expand w mode) fun _ => .ofExcept _

theorem Word.asks_resolve (mode : Mode) (w : Word) :
    Asks (σ := σ) w.questions (w.resolve mode) := by
  refine .ofExcept_bind fun verdict hscan => ?_
  rw [questions, hscan]
  cases verdict with
  | untouched => exact .pure w
  | expand => exact .bind (w.asks_resolveText mode) fun _ => .pure _

theorem Word.asks_resolveEach (mode : Mode) (ws : List Word) :
    Asks (σ := σ) (questionsAt (ws.map fun w => (w, mode))) (Word.resolveEach mode ws) := by
  induction ws with
  | nil => exact .pure []
  | cons w ws ih =>
    rw [List.map_cons, questionsAt]
    exact .bind (w.asks_resolve mode) fun _ => .bind ih fun _ => .pure _

theorem Word.asks_resolveArguments (ws : List Word) :
    Asks (σ := σ) (questionsAt (ws.map fun w => (w, .split))) (Word.resolveArguments ws) := by
  induction ws with
  | nil => exact .pure []
  | cons w ws ih =>
    rw [List.map_cons, questionsAt]
    refine .bind (.ofExcept_bind fun verdict hscan => ?_) fun _ => .bind ih fun _ => .pure _
    rw [questions, hscan]
    cases verdict with
    | untouched => exact .pure [w]
    | expand => exact .bind (.expand w .split) fun _ => .pure _

theorem Word.asks_mapM (operator : Option Word) :
    Asks (σ := σ) (questionsAt (operator.toList.map fun w => (w, .noSplit)))
      (operator.mapM (Word.resolve .noSplit)) := by
  cases operator with
  | none => exact .pure none
  | some w =>
    show Asks w.questions (some <$> w.resolve .noSplit)
    rw [← bind_pure_comp]
    exact .bind (w.asks_resolve .noSplit) fun _ => .pure _

theorem Word.asks_resolveValue (w : Word) :
    Asks (σ := σ) w.valueQuestions w.resolveValue := by
  refine .ofExcept_bind fun verdict hscan => ?_
  simp only [valueQuestions, hscan]
  split
  · exact .pure _
  · exact .bind (w.asks_resolveText .noSplit) fun _ => .pure _

/-- The text that is assigned is what the word has become. -/
theorem Word.resolveValue_eq_ok {w w' : Word} {value : Text} {s t : Session σ}
    (h : w.resolveValue.outcome s = (.ok (w', value), t)) : w'.value = value := by
  obtain ⟨verdict, _, -, h⟩ := outcome_bind_eq_ok.1 h
  split at h
  · cases h
    rfl
  · obtain ⟨value, _, -, h⟩ := outcome_bind_eq_ok.1 h
    cases h
    exact value_literal value

theorem Redirection.asks_resolve (r : Redirection) :
    Asks (σ := σ) (Word.questionsAt r.positions) r.resolve := by
  cases r with
  | file operator descriptor target =>
    cases descriptor with
    | fixed number => exact .bind (target.asks_resolve .target) fun _ => .pure _
    | runtime name => exact .throw _
  | heredoc kind descriptor body =>
    cases descriptor with
    | fixed number =>
      cases kind with
      | expanding => exact .bind (body.asks_resolve .heredoc) fun _ => .pure _
      | literal => exact .pure _
    | runtime name => cases kind <;> exact .throw _
  | duplicate operator descriptor target => cases descriptor <;> exact .throw _
  | close descriptor => cases descriptor <;> exact .throw _

theorem Redirection.asks_resolveAll (rs : List Redirection) :
    Asks (σ := σ) (Word.questionsAt (rs.flatMap positions)) (Redirection.resolveAll rs) := by
  induction rs with
  | nil => exact .pure []
  | cons r rs ih =>
    rw [List.flatMap_cons, Word.questionsAt_append]
    exact .bind r.asks_resolve fun _ => .bind ih fun _ => .pure _

mutual

theorem Test.asks_resolve : ∀ t : Test, Asks (σ := σ) (Word.questionsAt t.positions) t.resolve
  | .mk operator left right invert => by
    rw [Test.resolve, Test.positions, Word.questionsAt_append, Word.questionsAt_append]
    refine .bind (Word.asks_mapM operator) fun _ => ?_
    exact .bind (Operand.asks_resolve? left) fun _ =>
      .bind (Operand.asks_resolve? right) fun _ => .pure _

theorem Operand.asks_resolve? : ∀ o : Option Operand,
    Asks (σ := σ) (Word.questionsAt (Operand.positions? o)) (Operand.resolve? o)
  | none => .pure none
  | some (.word w) => .bind (w.asks_resolve .noSplit) fun _ => .pure _
  | some (.nested t) => .bind (Test.asks_resolve t) fun _ => .pure _

end

/-! ## Commands and trees -/

theorem Assignment.recorder_recordAll (assignments : List Assignment) :
    Recorder (σ := σ) (assignments.flatMap actions) (Assignment.recordAll assignments) id := by
  induction assignments with
  | nil =>
    intro s _ t h
    cases h
    exact .nil s
  | cons assignment rest ih =>
    intro s _ t h
    obtain ⟨⟨w, value⟩, _, hvalue, h⟩ := outcome_bind_eq_ok.1 h
    obtain ⟨⟨⟩, _, hrecord, h⟩ := outcome_bind_eq_ok.1 h
    obtain ⟨rest', _, hrest, h⟩ := outcome_bind_eq_ok.1 h
    cases h
    have hhead : Records assignment.actions [{ assignment with value := w }] s _ :=
      .after_ask (assignment.value.asks_resolveValue hvalue)
        (.record (Word.resolveValue_eq_ok hvalue) hrecord)
    exact hhead.append (ih hrest)

theorem Command.recorder_recordAssignments (flow : Flow) (c : Command) :
    Recorder (σ := σ) (c.assignments.flatMap Assignment.actions) (c.recordAssignments flow) id := by
  intro s assignments t h
  by_cases hassigns : c.assignments = []
  · rw [recordAssignments, if_pos hassigns] at h
    cases h
    rw [hassigns]
    exact .nil s
  · exact Assignment.recorder_recordAll _ (recordAssignments_eq_ok hassigns h).2.2.2

theorem Command.recorder_resolve (flow : Flow) (c : Command) :
    Recorder (σ := σ) c.actions (c.resolve flow) Command.assignments := by
  intro s c' t h
  obtain ⟨assignments, _, hassignments, h⟩ := outcome_bind_eq_ok.1 h
  obtain ⟨arguments, _, harguments, h⟩ := outcome_bind_eq_ok.1 h
  obtain ⟨redirections, _, hredirections, h⟩ := outcome_bind_eq_ok.1 h
  cases h
  exact ((c.recorder_recordAssignments flow hassignments).ask
    (Word.asks_resolveArguments _ harguments)).ask (Redirection.asks_resolveAll _ hredirections)

theorem Session.Recorder.inScope {α : Type} {actions : List (Action Text)}
    {after : α → List Assignment} {x : Attempt (Session σ) α} (hx : Recorder actions x after) :
    Recorder (inContext actions) (Session.inScope x) after := by
  intro s a t h
  obtain ⟨entered, last, henter, hlast, hleave⟩ := Session.inScope_eq_ok h
  exact .context henter (hx hlast) hleave

mutual

/-- A tree that is resolved has done its actions, and recorded the assignments that it now has. -/
theorem Node.recorder_resolveIn : ∀ (flow : Flow) (node : Node),
    Recorder (σ := σ) node.actions (node.resolveIn flow) Node.assignments
  | flow, .command c => by
    intro _ _ _ h
    obtain ⟨c', _, hc, h⟩ := outcome_bind_eq_ok.1 h
    cases h
    exact c.recorder_resolve flow hc
  | flow, .pipe items background => by
    intro _ _ _ h
    obtain ⟨items', _, hitems, h⟩ := outcome_bind_eq_ok.1 h
    cases h
    exact Node.recorder_resolveStages flow items hitems
  | flow, .subshell body _ | flow, .background body _ => by
    intro _ _ _ h
    obtain ⟨body', _, hbody, h⟩ := outcome_bind_eq_ok.1 h
    obtain ⟨redirections', _, hredirections, h⟩ := outcome_bind_eq_ok.1 h
    cases h
    exact ((Node.recorder_resolveIn flow body).inScope hbody).ask
      (Redirection.asks_resolveAll _ hredirections)
  | flow, .redirected body _ | flow, .group body _ => by
    intro _ _ _ h
    obtain ⟨body', _, hbody, h⟩ := outcome_bind_eq_ok.1 h
    obtain ⟨redirections', _, hredirections, h⟩ := outcome_bind_eq_ok.1 h
    cases h
    exact (Node.recorder_resolveIn flow body hbody).ask
      (Redirection.asks_resolveAll _ hredirections)
  | flow, .conjunction left right | flow, .disjunction left right | flow, .sequence left right => by
    intro _ _ _ h
    obtain ⟨left', _, hleft, h⟩ := outcome_bind_eq_ok.1 h
    obtain ⟨right', _, hright, h⟩ := outcome_bind_eq_ok.1 h
    cases h
    exact (Node.recorder_resolveIn flow left hleft).append
      (Node.recorder_resolveIn _ right hright)
  | flow, .negation body | flow, .timed _ body => by
    intro _ _ _ h
    obtain ⟨body', _, hbody, h⟩ := outcome_bind_eq_ok.1 h
    cases h
    have hrecords := Node.recorder_resolveIn _ body hbody
    exact hrecords
  | flow, .whileLoop test body => by
    intro _ _ _ h
    obtain ⟨test', _, htest, h⟩ := outcome_bind_eq_ok.1 h
    obtain ⟨body', _, hbody, h⟩ := outcome_bind_eq_ok.1 h
    cases h
    exact (Node.recorder_resolveIn .perhaps test htest).append
      (Node.recorder_resolveIn .perhaps body hbody)
  | flow, .conditional condition thenBranch elseBranch => by
    intro _ _ _ h
    obtain ⟨condition', _, hcondition, h⟩ := outcome_bind_eq_ok.1 h
    obtain ⟨then', _, hthen, h⟩ := outcome_bind_eq_ok.1 h
    obtain ⟨else', _, helse, h⟩ := outcome_bind_eq_ok.1 h
    cases h
    exact (Node.recorder_resolveIn flow condition hcondition).append
      ((Node.recorder_resolveIn .perhaps thenBranch hthen).append
        (Node.recorder_resolve? elseBranch helse))
  | flow, .caseOf argument arms => by
    intro _ _ _ h
    obtain ⟨argument', _, hargument, h⟩ := outcome_bind_eq_ok.1 h
    obtain ⟨arms', _, harms, h⟩ := outcome_bind_eq_ok.1 h
    cases h
    exact .after_ask (argument.asks_resolve .noSplit hargument) (Arm.recorder_resolveAll arms harms)
  | flow, .arithmetic body => by
    intro _ _ _ h
    obtain ⟨body', _, hbody, h⟩ := outcome_bind_eq_ok.1 h
    cases h
    exact .of_asked (Word.asks_resolveEach .noSplit body hbody)
  | flow, .test test => by
    intro _ _ _ h
    obtain ⟨test', _, htest, h⟩ := outcome_bind_eq_ok.1 h
    cases h
    exact .of_asked (test.asks_resolve htest)
  | _, .function _ _ | _, .forLoop _ _ _ | _, .select _ _ _ | _, .arithmeticFor _ _ _ _
  | _, .coprocess _ _ => by
    intro _ _ _ h
    cases h

theorem Node.recorder_resolveStages : ∀ (flow : Flow) (nodes : List Node),
    Recorder (σ := σ) (Node.actionsOf nodes) (Node.resolveStages flow nodes) Node.assignmentsOf
  | _, [] => by
    intro s _ _ h
    cases h
    exact .nil s
  | flow, node :: rest => by
    intro _ _ _ h
    obtain ⟨node', _, hnode, h⟩ := outcome_bind_eq_ok.1 h
    obtain ⟨rest', _, hrest, h⟩ := outcome_bind_eq_ok.1 h
    cases h
    exact ((Node.recorder_resolveIn flow node).inScope hnode).append
      (Node.recorder_resolveStages flow rest hrest)

theorem Node.recorder_resolve? : ∀ node : Option Node,
    Recorder (σ := σ) (Node.actions? node) (Node.resolve? node) Node.assignments?
  | none => by
    intro s _ _ h
    cases h
    exact .nil s
  | some node => by
    intro _ _ _ h
    obtain ⟨node', _, hnode, h⟩ := outcome_bind_eq_ok.1 h
    cases h
    exact Node.recorder_resolveIn .perhaps node hnode

theorem Arm.recorder_resolveAll : ∀ arms : List Arm,
    Recorder (σ := σ) (Arm.actions arms) (Arm.resolveAll arms) Arm.assignments
  | [] => by
    intro s _ _ h
    cases h
    exact .nil s
  | .mk patterns body :: rest => by
    intro _ _ _ h
    obtain ⟨patterns', _, hpatterns, h⟩ := outcome_bind_eq_ok.1 h
    obtain ⟨body', _, hbody, h⟩ := outcome_bind_eq_ok.1 h
    obtain ⟨rest', _, hrest, h⟩ := outcome_bind_eq_ok.1 h
    cases h
    exact .after_ask (Word.asks_resolveEach .noSplit patterns hpatterns)
      ((Node.recorder_resolve? body hbody).append (Arm.recorder_resolveAll rest hrest))

end

/-- **Only what always runs is recorded, and all of it once.** Whatever the oracle is, a tree that
is resolved assigns only in commands without arguments that no operator, negation, loop, branch or
arm makes conditional, at any depth. What leads through it records its assignments from left to
right, each once, with the values that the resolved tree shows. -/
theorem resolve_records {node node' : Node} {session after : Session σ}
    (h : node.resolve.outcome session = (.ok node', after)) :
    node.AssignsPlainly ∧ ∃ l, Leads l session after ∧
      (recorded l).map Prod.fst = node.assignments.map (·.name) ∧
      recorded l = node'.assignments.map fun a => (a.name, a.value.value) := by
  obtain ⟨l, hleads, hactions, hvalues⟩ := Node.recorder_resolveIn .always node h
  refine ⟨Node.assignsPlainly_of_resolve h, l, hleads, ?_, hvalues⟩
  rw [← Journal.recorded_map, hactions, node.recorded_actions]

end

/-- An assignment that is handed over to the oracle, and one that a subshell drops. -/
theorem resolve_records_of_subshell :
    let assign (name value : String) : Node :=
      .command ⟨none, [⟨name.toList, .ofText value.toList⟩], [], []⟩
    let node : Node := .sequence (assign "x" "1") (.subshell (assign "y" "2") [])
    let opened (vars : Variables) (pending : List Text) : Session Builtin :=
      { settings := {}, environment := {}
        host := { hasDirectory := fun _ => true, fileText := fun _ => none }
        live := some ({ scope := { vars } }, { path := [], pending }) }
    let after := opened (.ofList [("x".toList, { value := "1".toList })]) []
    node.resolve.outcome (opened {} []) = (.ok node, after) ∧
      node.AssignsPlainly ∧ ∃ l, Leads l (opened {} []) after ∧
        (recorded l).map Prod.fst = node.assignments.map (·.name) ∧
        recorded l = node.assignments.map fun a => (a.name, a.value.value) := by
  intro assign node opened after
  have hresolve : node.resolve.outcome (opened {} []) = (.ok node, after) := rfl
  exact ⟨hresolve, resolve_records hresolve⟩

end ShellFold
