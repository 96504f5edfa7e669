import ShellFold.Tree.Kind
import ShellFold.Word

/-!
# Command trees

The syntax tree of a parsed command: `Node` and what it is made of, redirections, assignments
and conditional expressions. `Node.kind` names the construct at the root.
-/

set_option autoImplicit false

namespace ShellFold

/-- The descriptor a redirection sets. -/
inductive Descriptor
  | fixed (number : Int32)
  /-- A descriptor the shell picks at run time and stores in a variable. -/
  | runtime (name : Word)
  deriving DecidableEq

/-- How a redirection opens a file. -/
inductive FileOperator
  | read
  | write
  | clobber
  | append
  | readWrite
  deriving DecidableEq, Repr

inductive DuplicateOperator
  | input
  | output
  deriving DecidableEq, Repr

/-- Whether a here-document was given a quoted delimiter, so that its body is literal. -/
inductive HeredocKind
  | literal
  | expanding
  deriving DecidableEq, Repr

inductive Redirection
  | file (operator : FileOperator) (descriptor : Descriptor) (target : Word)
  | duplicate (operator : DuplicateOperator) (descriptor : Descriptor) (target : Word)
  | heredoc (kind : HeredocKind) (descriptor : Descriptor) (body : Word)
  /-- An operator with a descriptor and no word. -/
  | close (descriptor : Descriptor)
  deriving DecidableEq

def Redirection.descriptor : Redirection → Descriptor
  | file _ d _ => d
  | duplicate _ d _ => d
  | heredoc _ d _ => d
  | close d => d

structure Assignment where
  name : Text
  value : Word
  deriving DecidableEq

structure Command where
  lineNumber : Option UInt32
  assignments : List Assignment
  arguments : List Word
  redirections : List Redirection
  deriving DecidableEq

mutual

/-- A conditional expression: an operator with up to two operands. -/
inductive Test
  | mk (operator : Option Word) (left right : Option Operand) (invert : Bool)

inductive Operand
  | word (w : Word)
  | nested (t : Test)

end

mutual

inductive Node
  | pipe (items : List Node) (background : Bool)
  | command (c : Command)
  | subshell (body : Node) (redirections : List Redirection)
  | conjunction (left right : Node)
  | disjunction (left right : Node)
  | sequence (left right : Node)
  | negation (body : Node)
  | redirected (body : Node) (redirections : List Redirection)
  | background (body : Node) (redirections : List Redirection)
  | function (name : Word) (body : Node)
  | forLoop (bound : Word) (items : List Word) (body : Node)
  | whileLoop (test body : Node)
  | conditional (condition thenBranch : Node) (elseBranch : Option Node)
  | caseOf (argument : Word) (arms : List Arm)
  | select (bound : Word) (items : List Word) (body : Node)
  | arithmetic (body : List Word)
  | test (t : Test)
  | arithmeticFor (start condition step : List Word) (action : Node)
  | coprocess (name : Word) (body : Node)
  | timed (posix : Bool) (command : Node)
  | group (body : Node) (redirections : List Redirection)

/-- An arm of a case: its alternative patterns and what it runs. -/
inductive Arm
  | mk (patterns : List Word) (body : Option Node)

end

/-- The construct at the root of a tree. -/
def Node.kind : Node → Kind
  | pipe .. => .pipe
  | command .. => .command
  | subshell .. => .subshell
  | conjunction .. => .conjunction
  | disjunction .. => .disjunction
  | sequence .. => .sequence
  | negation .. => .negation
  | redirected .. => .redirected
  | background .. => .background
  | function .. => .function
  | forLoop .. => .forLoop
  | whileLoop .. => .whileLoop
  | conditional .. => .conditional
  | caseOf .. => .caseOf
  | select .. => .select
  | arithmetic .. => .arithmetic
  | test .. => .test
  | arithmeticFor .. => .arithmeticFor
  | coprocess .. => .coprocess
  | timed .. => .timed
  | group .. => .group

end ShellFold
