import ShellFold.Resolve.Words

/-!
# Resolving trees

`Node.resolve` replaces every word of a tree that has something to expand. The parts of a command
that a shell runs in a process of their own, the stages of a pipe and the bodies of subshells and
background jobs, are resolved in a context of the session. Assignments are recorded, which is
possible only where the command is an assignment alone and runs on every path. Constructs that
bind variables in ways the oracle cannot know are refused.
-/

set_option autoImplicit false

namespace ShellFold

variable {σ : Type} [Oracle σ]

/-- Whether a part of a tree runs on every path through it. -/
inductive Flow
  | always
  | perhaps
  deriving DecidableEq, Repr

/-- Records assignments in order, each value after it has been resolved. -/
def Assignment.recordAll : List Assignment → Attempt (Session σ) (List Assignment)
  | [] => return []
  | assignment :: rest => do
    let (word, value) ← assignment.value.resolveValue
    Session.recordAssignment assignment.name value
    return { assignment with value := word } :: (← recordAll rest)

/-- Records the assignments of a command. -/
def Command.recordAssignments (flow : Flow) (c : Command) :
    Attempt (Session σ) (List Assignment) := do
  if c.assignments = [] then return []
  if !(← get).acceptsAssignments then throw (.impure .inseparableAssignment)
  if c.arguments ≠ [] then throw (.impure .prefixedCommand)
  if flow = .perhaps then throw (.impure .conditionalAssignment)
  Assignment.recordAll c.assignments

def Command.resolve (flow : Flow) (c : Command) : Attempt (Session σ) Command := do
  let assignments ← c.recordAssignments flow
  let arguments ← Word.resolveArguments c.arguments
  let redirections ← Redirection.resolveAll c.redirections
  return { c with assignments, arguments, redirections }

mutual

def Test.resolve : Test → Attempt (Session σ) Test
  | .mk operator left right invert => do
    let operator ← operator.mapM (Word.resolve .noSplit)
    let left ← Operand.resolve? left
    let right ← Operand.resolve? right
    return .mk operator left right invert

def Operand.resolve? : Option Operand → Attempt (Session σ) (Option Operand)
  | none => return none
  | some (.word w) => return some (.word (← w.resolve .noSplit))
  | some (.nested t) => return some (.nested (← t.resolve))

end

mutual

/-- What a tree becomes, when it runs under the given flow. -/
def Node.resolveIn (flow : Flow) : Node → Attempt (Session σ) Node
  | .command c => return .command (← c.resolve flow)
  | .pipe items background => return .pipe (← Node.resolveStages flow items) background
  | .subshell body redirections => do
    let body ← Session.inScope (body.resolveIn flow)
    return .subshell body (← Redirection.resolveAll redirections)
  | .background body redirections => do
    let body ← Session.inScope (body.resolveIn flow)
    return .background body (← Redirection.resolveAll redirections)
  | .conjunction left right => do
    let left ← left.resolveIn flow
    return .conjunction left (← right.resolveIn .perhaps)
  | .disjunction left right => do
    let left ← left.resolveIn flow
    return .disjunction left (← right.resolveIn .perhaps)
  | .sequence left right => do
    let left ← left.resolveIn flow
    return .sequence left (← right.resolveIn flow)
  | .negation body => return .negation (← body.resolveIn .perhaps)
  | .redirected body redirections => do
    let body ← body.resolveIn flow
    return .redirected body (← Redirection.resolveAll redirections)
  | .group body redirections => do
    let body ← body.resolveIn flow
    return .group body (← Redirection.resolveAll redirections)
  | .timed posix command => return .timed posix (← command.resolveIn flow)
  | .whileLoop test body => do
    let test ← test.resolveIn .perhaps
    return .whileLoop test (← body.resolveIn .perhaps)
  | .conditional condition thenBranch elseBranch => do
    let condition ← condition.resolveIn flow
    let thenBranch ← thenBranch.resolveIn .perhaps
    return .conditional condition thenBranch (← Node.resolve? elseBranch)
  | .caseOf argument arms => do
    let argument ← argument.resolve .noSplit
    return .caseOf argument (← Arm.resolveAll arms)
  | .arithmetic body => return .arithmetic (← Word.resolveEach .noSplit body)
  | .test t => return .test (← t.resolve)
  | .function .. => throw (.unimplemented (.binding .function))
  | .forLoop .. => throw (.unimplemented (.binding .forLoop))
  | .select .. => throw (.unimplemented (.binding .select))
  | .arithmeticFor .. => throw (.unimplemented (.binding .arithmeticFor))
  | .coprocess .. => throw (.unimplemented (.binding .coprocess))

/-- What the stages of a pipe become, each in a context of its own. -/
def Node.resolveStages (flow : Flow) : List Node → Attempt (Session σ) (List Node)
  | [] => return []
  | node :: rest => do
    let node ← Session.inScope (node.resolveIn flow)
    return node :: (← Node.resolveStages flow rest)

/-- What a branch that may be taken becomes, if there is one. -/
def Node.resolve? : Option Node → Attempt (Session σ) (Option Node)
  | none => return none
  | some node => return some (← node.resolveIn .perhaps)

def Arm.resolveAll : List Arm → Attempt (Session σ) (List Arm)
  | [] => return []
  | .mk patterns body :: rest => do
    let patterns ← Word.resolveEach .noSplit patterns
    let body ← Node.resolve? body
    return .mk patterns body :: (← Arm.resolveAll rest)

end

/-- The tree with each of its words resolved. -/
def Node.resolve (node : Node) : Attempt (Session σ) Node := node.resolveIn .always

/-- What became of a tree that was to be resolved. -/
inductive Outcome
  | expanded (node : Node)
  /-- The tree stays as it is, for a reason. -/
  | kept (node : Node) (reason : Failure)

/-- Whether a tree was resolved. -/
def Outcome.isExpanded : Outcome → Bool
  | expanded _ => true
  | kept .. => false

def Outcome.node : Outcome → Node
  | expanded node => node
  | kept node _ => node

/-- Resolves a tree, or keeps it as it is when that fails for an expected reason. Only a failure
of the oracle itself is passed on. -/
def Node.resolveOrKeep (node : Node) : Attempt (Session σ) Outcome := do
  match ← node.resolve.observe with
  | .ok resolved => return .expanded resolved
  | .error e => if e.isExpected then return .kept node e else throw e

end ShellFold
