import ShellFold.Proofs.Expansion.Literal
import ShellFold.Resolve.Tree

/-!
# Direct evaluation

Resolving without a session: there is one scope, an assignment changes its table of variables at
once, a word is expanded in the scope as it is at that time, and what a shell runs in a process of
its own is evaluated on a copy of the scope (`Direct.onCopy`). `Node.direct` says what a tree
becomes.
-/

set_option autoImplicit false

namespace ShellFold

/-- An evaluation that may fail, on a scope that it may change. -/
abbrev Direct (α : Type) := StateT Scope (Except Failure) α

namespace Direct

def ofExcept {α : Type} (result : Except Failure α) : Direct α := fun scope =>
  result.map fun a => (a, scope)

/-- Expands a word in the scope as it is. -/
def expand (w : Word) (mode : Mode) : Direct (List Text) := do
  ofExcept ((← get).expandWord mode w)

/-- Gives a value to a variable, whose attributes stay. -/
def assign (name value : Text) : Direct Unit := do
  if name.isName = false then throw (.early (.invalidName name))
  if '\x00' ∈ value then throw (.early (.unquotable value))
  modify fun scope =>
    { scope with vars := scope.vars.insert name { scope.vars.getOrNew name with value } }

/-- Evaluates on a copy of the scope, which is thrown away. -/
def onCopy {α : Type} (x : Direct α) : Direct α := fun scope => do
  let (a, _) ← x scope
  return (a, scope)

end Direct

namespace Word

def directArgument (w : Word) : Direct (List Word) := do
  match ← Direct.ofExcept w.scan with
  | .untouched => return [w]
  | .expand => return (← Direct.expand w .split).map literal

def directArguments : List Word → Direct (List Word)
  | [] => return []
  | w :: rest => do
    let words ← w.directArgument
    return words ++ (← directArguments rest)

def directText (w : Word) (mode : Mode) : Direct Text := do
  Direct.ofExcept (only (← Direct.expand w mode))

def direct (mode : Mode) (w : Word) : Direct Word := do
  match ← Direct.ofExcept w.scan with
  | .untouched => return w
  | .expand => return literal (← w.directText mode)

def directEach (mode : Mode) : List Word → Direct (List Word)
  | [] => return []
  | w :: rest => do
    let resolved ← w.direct mode
    return resolved :: (← directEach mode rest)

def directValue (w : Word) : Direct (Word × Text) := do
  let verdict ← Direct.ofExcept w.scan
  if w.isPlain verdict then return (w, w.value)
  else do
    let value ← w.directText .noSplit
    return (literal value, value)

end Word

namespace Redirection

def direct (redirection : Redirection) : Direct Redirection := do
  match redirection with
  | file operator (.fixed number) target =>
    return file operator (.fixed number) (← target.direct .target)
  | heredoc .expanding (.fixed number) body =>
    return heredoc .expanding (.fixed number) (← body.direct .heredoc)
  | heredoc .literal (.fixed _) _ => return redirection
  | duplicate _ (.fixed _) _ => throw (.impure .descriptorDuplication)
  | close (.fixed _) => throw (.impure .descriptorClose)
  | file _ (.runtime name) _ | heredoc _ (.runtime name) _ | duplicate _ (.runtime name) _
  | close (.runtime name) => throw (.impure (.runtimeDescriptor name.rawChars))

def directAll : List Redirection → Direct (List Redirection)
  | [] => return []
  | redirection :: rest => do
    let resolved ← redirection.direct
    return resolved :: (← directAll rest)

end Redirection

/-- Assigns in order: each value is expanded after the assignments before it. -/
def Assignment.directAll : List Assignment → Direct (List Assignment)
  | [] => return []
  | assignment :: rest => do
    let (word, value) ← assignment.value.directValue
    Direct.assign assignment.name value
    return { assignment with value := word } :: (← directAll rest)

/-- A command assigns only where it does nothing else and runs on every path. -/
def Command.directAssignments (flow : Flow) (c : Command) : Direct (List Assignment) := do
  if c.assignments = [] then return []
  if c.arguments ≠ [] then throw (.impure .prefixedCommand)
  if flow = .perhaps then throw (.impure .conditionalAssignment)
  Assignment.directAll c.assignments

def Command.direct (flow : Flow) (c : Command) : Direct Command := do
  let assignments ← c.directAssignments flow
  let arguments ← Word.directArguments c.arguments
  let redirections ← Redirection.directAll c.redirections
  return { c with assignments, arguments, redirections }

def Word.directOption : Option Word → Direct (Option Word)
  | none => return none
  | some w => return some (← w.direct .noSplit)

mutual

def Test.direct : Test → Direct Test
  | .mk operator left right invert => do
    let operator ← Word.directOption operator
    let left ← Operand.directOption left
    let right ← Operand.directOption right
    return .mk operator left right invert

def Operand.directOption : Option Operand → Direct (Option Operand)
  | none => return none
  | some (.word w) => return some (.word (← w.direct .noSplit))
  | some (.nested t) => return some (.nested (← t.direct))

end

mutual

/-- What a tree becomes, when it runs under the given flow. -/
def Node.directIn (flow : Flow) : Node → Direct Node
  | .command c => return .command (← c.direct flow)
  | .pipe items background => return .pipe (← Node.directStages flow items) background
  | .subshell body redirections => do
    let body ← Direct.onCopy (body.directIn flow)
    return .subshell body (← Redirection.directAll redirections)
  | .background body redirections => do
    let body ← Direct.onCopy (body.directIn flow)
    return .background body (← Redirection.directAll redirections)
  | .conjunction left right => do
    let left ← left.directIn flow
    return .conjunction left (← right.directIn .perhaps)
  | .disjunction left right => do
    let left ← left.directIn flow
    return .disjunction left (← right.directIn .perhaps)
  | .sequence left right => do
    let left ← left.directIn flow
    return .sequence left (← right.directIn flow)
  | .negation body => return .negation (← body.directIn .perhaps)
  | .redirected body redirections => do
    let body ← body.directIn flow
    return .redirected body (← Redirection.directAll redirections)
  | .group body redirections => do
    let body ← body.directIn flow
    return .group body (← Redirection.directAll redirections)
  | .timed posix command => return .timed posix (← command.directIn flow)
  | .whileLoop test body => do
    let test ← test.directIn .perhaps
    return .whileLoop test (← body.directIn .perhaps)
  | .conditional condition thenBranch elseBranch => do
    let condition ← condition.directIn flow
    let thenBranch ← thenBranch.directIn .perhaps
    return .conditional condition thenBranch (← Node.directOption elseBranch)
  | .caseOf argument arms => do
    let argument ← argument.direct .noSplit
    return .caseOf argument (← Arm.directAll arms)
  | .arithmetic body => return .arithmetic (← Word.directEach .noSplit body)
  | .test t => return .test (← t.direct)
  | .function .. => throw (.unimplemented (.binding .function))
  | .forLoop .. => throw (.unimplemented (.binding .forLoop))
  | .select .. => throw (.unimplemented (.binding .select))
  | .arithmeticFor .. => throw (.unimplemented (.binding .arithmeticFor))
  | .coprocess .. => throw (.unimplemented (.binding .coprocess))

/-- What the stages of a pipe become, each on a copy of its own. -/
def Node.directStages (flow : Flow) : List Node → Direct (List Node)
  | [] => return []
  | node :: rest => do
    let node ← Direct.onCopy (node.directIn flow)
    return node :: (← Node.directStages flow rest)

def Node.directOption : Option Node → Direct (Option Node)
  | none => return none
  | some node => return some (← node.directIn .perhaps)

def Arm.directAll : List Arm → Direct (List Arm)
  | [] => return []
  | .mk patterns body :: rest => do
    let patterns ← Word.directEach .noSplit patterns
    let body ← Node.directOption body
    return .mk patterns body :: (← Arm.directAll rest)

end

/-- What a tree becomes in a scope. -/
def Node.direct (node : Node) (scope : Scope) : Except Failure Node :=
  (node.directIn .always scope).map Prod.fst

end ShellFold
