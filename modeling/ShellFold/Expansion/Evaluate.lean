import ShellFold.Expansion.Fields
import ShellFold.Expansion.Piece
import ShellFold.Variables

/-!
# Evaluating a word

The value of the pieces of a word in a `Scope`, the state of a shell that an expansion depends
on. `Scope.expand` reads a word into pieces and adds each in turn to the fields. Unquoted values
are split at the characters of `IFS`, which may be blanks only, and must be free of the
characters that a shell would match against file names.
-/

set_option autoImplicit false

namespace ShellFold

/-- The state of a shell that an expansion depends on. -/
structure Scope where
  vars : Variables := {}
  positional : List Text := []
  options : Text := []

/-- What a parameter stands for. -/
inductive Parameter
  /-- One value, or none if the parameter is not set. -/
  | scalar (value : Option Text)
  | list (values : List Text)
  deriving DecidableEq, Repr

/-- The characters that a shell matches against file names. -/
def isGlob (c : Char) : Bool := c = '*' || c = '?' || c = '['

/-- The separators of fields where `IFS` is not set. -/
def defaultSeparators : Text := [' ', '\t', '\n']

/-- The greatest number that can index a positional parameter. -/
def maxIndex : Nat := UInt64.size - 1

/-- The number of a list of digits. -/
def indexOf (digits : Text) : Nat := digits.foldl (fun n c => 10 * n + (c.toNat - 48)) 0

namespace Scope

def value? (scope : Scope) (name : Text) : Option Text := scope.vars.value? name

/-- The separators of fields: the value of `IFS`, which must consist of blanks. -/
def separators (scope : Scope) : Except Failure Text :=
  let ifs := (scope.value? "IFS".toList).getD defaultSeparators
  if ifs.all (· ∈ defaultSeparators) then .ok ifs else .error (.unimplemented .fieldSeparators)

/-- The positional parameter of a number, of which there is none for zero. -/
def positional? (scope : Scope) : Nat → Option Text
  | 0 => none
  | index + 1 => scope.positional[index]?

/-- What a parameter within braces and an operator stands for. -/
def lookup (scope : Scope) (name : Text) : Except Failure Parameter :=
  if name.isName then .ok (.scalar (scope.value? name))
  else if name = ['@'] ∨ name = ['*'] then .ok (.list scope.positional)
  else if name = ['?'] ∨ name = ['$'] ∨ name = ['!'] then
    .error (.impure (.processState name))
  else if name = ['0'] then .error (.unimplemented .shellName)
  else if name.all Char.isDigit then
    if indexOf name ≤ maxIndex then .ok (.scalar (scope.positional? (indexOf name)))
    else .error (.unimplemented (.positional name))
  else if name = ['-'] then .ok (.scalar (some scope.options))
  else .error (.unimplemented (.parameter name))

/-- Adds a value that an expansion yields, or nothing if there is none. -/
def emit (scope : Scope) (split quoted : Bool) (value : Option Text) (fields : Fields) :
    Except Failure Fields :=
  match value with
  | none => .ok fields
  | some value =>
    if quoted then .ok (fields.literal value)
    else if value.any isGlob then .error (.unimplemented .globInValue)
    else do return fields.unquoted split (← scope.separators) value

/-- Adds the positional parameters after the first, each behind a boundary. -/
def emitRest (scope : Scope) (split quoted : Bool) : List Text → Fields → Except Failure Fields
  | [], fields => .ok fields
  | value :: rest, fields => do
    let fields ← scope.emit split quoted (some value) (fields.separate split quoted)
    scope.emitRest split quoted rest fields

def emitList (scope : Scope) (split quoted : Bool) : List Text → Fields → Except Failure Fields
  | [], fields => .ok fields
  | value :: rest, fields => do
    let fields ← scope.emit split quoted (some value) fields
    scope.emitRest split quoted rest fields

/-- The positional parameters as one value, joined by the first separator. -/
def joined (scope : Scope) : Except Failure Text := do
  let separators ← scope.separators
  return (separators.take 1).intercalate scope.positional

/-- Adds the value of a parameter. -/
def emitValue (scope : Scope) (split quoted : Bool) (name : Text) (fields : Fields) :
    Except Failure Fields :=
  if name = ['#'] then
    scope.emit split quoted (some (Nat.toDigits 10 scope.positional.length)) fields
  else if name = ['*'] ∧ quoted then do
    scope.emit split true (some (← scope.joined)) fields
  else do
    match ← scope.lookup name with
    | .scalar value => scope.emit split quoted value fields
    | .list values => scope.emitList split quoted values fields

/-- Adds the number of characters of a parameter, none if it is not set. -/
def emitLength (scope : Scope) (split quoted : Bool) (name : Text) (fields : Fields) :
    Except Failure Fields := do
  match ← scope.lookup name with
  | .scalar value =>
    scope.emit split quoted (some (Nat.toDigits 10 (value.getD []).length)) fields
  | .list _ => throw (.unimplemented .lengthOfList)

/-- The value of a parameter in front of an operator, which a list cannot be. -/
def lookupScalar (scope : Scope) (name : Text) : Except Failure (Option Text) := do
  match ← scope.lookup name with
  | .scalar value => return value
  | .list _ => throw (.unimplemented (.operatorOnList name))

end Scope

/-- Whether a value counts as set. -/
def counts (nonEmpty : Bool) : Option Text → Bool
  | none => false
  | some value => !(nonEmpty && value.isEmpty)

mutual

/-- Adds a piece to the fields. -/
def Piece.eval (scope : Scope) (split : Bool) : Piece → Fields → Except Failure Fields
  | .text s, fields => .ok (fields.literal s)
  | .home, fields =>
    match scope.value? "HOME".toList with
    | some directory => .ok (fields.literal directory)
    | none => .error (.unimplemented .homeUnset)
  | .value quoted name, fields => scope.emitValue split quoted name fields
  | .length quoted name, fields => scope.emitLength split quoted name fields
  | .choice quoted .default nonEmpty name word, fields => do
    let value ← scope.lookupScalar name
    if counts nonEmpty value then scope.emit split quoted value fields
    else Piece.evalAll scope split word fields
  | .choice _ .alternative nonEmpty name word, fields => do
    let value ← scope.lookupScalar name
    if counts nonEmpty value then Piece.evalAll scope split word fields else return fields
  | .rejected name e, _ => do
    let _ ← scope.lookupScalar name
    throw e
  | .failure e, _ => .error e

def Piece.evalAll (scope : Scope) (split : Bool) : List Piece → Fields → Except Failure Fields
  | [], fields => .ok fields
  | piece :: rest, fields => do
    let fields ← piece.eval scope split fields
    Piece.evalAll scope split rest fields

end

def Mode.splits (mode : Mode) : Bool := mode = .split

/-- What a word expands to. -/
def Scope.expand (scope : Scope) (mode : Mode) (s : Text) : Except Failure (List Text) := do
  let fields ← Piece.evalAll scope mode.splits (Piece.ofText mode s) {}
  return fields.finish mode.splits

end ShellFold
