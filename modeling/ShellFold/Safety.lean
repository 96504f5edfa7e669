import ShellFold.Scan
import ShellFold.Tree.Basic

/-!
# The pre-filter

`Node.isSafe` says at once, without an oracle, whether a tree could be expanded: the scanner
accepts each of its words, it binds no variable and no redirection depends on open descriptors.
-/

set_option autoImplicit false

namespace ShellFold

/-- Whether a redirection could be expanded. -/
def Redirection.isSafe : Redirection → Bool
  | file _ (.fixed _) target => target.isScannable
  | heredoc .expanding (.fixed _) body => body.isScannable
  | heredoc .literal (.fixed _) _ => true
  | _ => false

def Command.isSafe (c : Command) : Bool :=
  c.assignments.all (·.value.isScannable) && c.arguments.all (·.isScannable) &&
    c.redirections.all (·.isSafe)

mutual

def Test.isSafe : Test → Bool
  | .mk operator left right _ =>
    operator.all (·.isScannable) && Operand.isSafe? left && Operand.isSafe? right

def Operand.isSafe? : Option Operand → Bool
  | none => true
  | some (.word w) => w.isScannable
  | some (.nested t) => t.isSafe

end

mutual

/-- Whether a tree could be expanded: no word of it can have an effect, and no construct of it
is rejected whatever its words are. -/
def Node.isSafe : Node → Bool
  | .pipe items _ => Node.areSafe items
  | .command c => c.isSafe
  | .subshell body redirections => body.isSafe && redirections.all (·.isSafe)
  | .conjunction left right => left.isSafe && right.isSafe
  | .disjunction left right => left.isSafe && right.isSafe
  | .sequence left right => left.isSafe && right.isSafe
  | .negation body => body.isSafe
  | .redirected body redirections => body.isSafe && redirections.all (·.isSafe)
  | .background body redirections => body.isSafe && redirections.all (·.isSafe)
  | .whileLoop test body => test.isSafe && body.isSafe
  | .conditional condition thenBranch elseBranch =>
    condition.isSafe && thenBranch.isSafe && Node.isSafe? elseBranch
  | .caseOf argument arms => argument.isScannable && Arm.areSafe arms
  | .arithmetic body => body.all (·.isScannable)
  | .test t => t.isSafe
  | .timed _ command => command.isSafe
  | .group body redirections => body.isSafe && redirections.all (·.isSafe)
  | .function .. | .forLoop .. | .select .. | .arithmeticFor .. | .coprocess .. => false

def Node.areSafe : List Node → Bool
  | [] => true
  | node :: rest => node.isSafe && Node.areSafe rest

def Node.isSafe? : Option Node → Bool
  | none => true
  | some node => node.isSafe

def Arm.areSafe : List Arm → Bool
  | [] => true
  | .mk patterns body :: rest =>
    patterns.all (·.isScannable) && Node.isSafe? body && Arm.areSafe rest

end

end ShellFold
