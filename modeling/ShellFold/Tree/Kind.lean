/-!
# Kinds of syntax nodes

The 21 constructs of a command tree, each with the name it has in messages and documents.
-/

set_option autoImplicit false

namespace ShellFold

inductive Kind
  | pipe
  | command
  | subshell
  | conjunction
  | disjunction
  | sequence
  | negation
  | redirected
  | background
  | function
  | forLoop
  | whileLoop
  | conditional
  | caseOf
  | select
  | arithmetic
  | test
  | arithmeticFor
  | coprocess
  | timed
  | group
  deriving DecidableEq, Repr

namespace Kind

def name : Kind → String
  | pipe => "pipe"
  | command => "command"
  | subshell => "subshell"
  | conjunction => "and"
  | disjunction => "or"
  | sequence => "semi"
  | negation => "not"
  | redirected => "redir"
  | background => "background"
  | function => "defun"
  | forLoop => "for"
  | whileLoop => "while"
  | conditional => "if"
  | caseOf => "case"
  | select => "select"
  | arithmetic => "arith"
  | test => "cond"
  | arithmeticFor => "arith_for"
  | coprocess => "coproc"
  | timed => "time"
  | group => "group"

def all : List Kind :=
  [pipe, command, subshell, conjunction, disjunction, sequence, negation, redirected, background,
    function, forLoop, whileLoop, conditional, caseOf, select, arithmetic, test, arithmeticFor,
    coprocess, timed, group]

def ofName? (name : String) : Option Kind := all.find? (·.name == name)

theorem ofName?_name (k : Kind) : ofName? k.name = some k := by
  cases k <;> decide

end Kind

end ShellFold
