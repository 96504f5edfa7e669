import ShellFold.Attempt
import ShellFold.Text.Name
import ShellFold.Text.Tokens
import ShellFold.Variables
import ShellFold.Word

/-!
# Assignment statements

The statements by which variables are handed to an oracle, in both directions: `Statement.render`
writes one as shell source, and `Variables.applyScript` carries out the statements of a file on a
table of variables. A file is cut into statements at newlines outside quotes, so that a value may
span several lines. A statement that fails leaves those before it applied.
-/

set_option autoImplicit false

namespace ShellFold

/-- A definition of a variable or of one of its attributes. -/
inductive Statement
  | assign (name value : Text)
  | exported (name : Text)
  | readonly (name : Text)
  deriving DecidableEq, Repr

def checkName (name : Text) : Except Failure Unit :=
  if name.isName then .ok () else .error (.early (.invalidName name))

namespace Statement

/-- Shell source for a statement. -/
def render : Statement → Except Failure Text
  | assign name value => do
    checkName name
    return name ++ '=' :: (← quoteLiteral value)
  | exported name => do
    checkName name
    return "export ".toList ++ name
  | readonly name => do
    checkName name
    return "readonly ".toList ++ name

end Statement

/-- An attribute of a variable. -/
inductive Attribute
  | exported
  | readonly
  deriving DecidableEq, Repr

/-- The attribute that a command word gives. -/
def Attribute.ofWord? (word : Text) : Option Attribute :=
  if word = "export".toList then some .exported
  else if word = "readonly".toList then some .readonly
  else none

/-- The variable with an attribute given to it. -/
def Variable.mark (v : Variable) : Attribute → Variable
  | .exported => { v with exported := true }
  | .readonly => { v with readonly := true }

namespace Variables

/-- The variable of a name, or the one that a first mention of the name makes. -/
def getOrNew (vars : Variables) (name : Text) : Variable := (vars.get? name).getD { value := [] }

/-- Gives a value to a variable; its attributes stay. -/
def assign (name value : Text) : Attempt Variables Unit := do
  Attempt.ofExcept (checkName name)
  let vars ← get
  let old := vars.getOrNew name
  if old.readonly then throw (.impure (.readonlyAssignment name))
  set (vars.insert name { old with value })

/-- Gives an attribute to a variable, which thereby is set. -/
def mark (flag : Attribute) (name : Text) : Attempt Variables Unit := do
  Attempt.ofExcept (checkName name)
  modify fun vars => vars.insert name ((vars.getOrNew name).mark flag)

/-- Carries out one operand of an attribute command, a name or an assignment. -/
def markItem (flag : Attribute) (item : Text) : Attempt Variables Unit :=
  match item.splitOnce? '=' with
  | some (name, value) => do
    assign name value
    mark flag name
  | none => mark flag item

/-- Carries out one statement. -/
def applyStatement (statement : Text) : Attempt Variables Unit :=
  match statement.tokens? with
  | none => throw (.early (.unparsableStatement statement))
  | some [] => throw (.early (.unsupportedStatement statement))
  | some (head :: operands) =>
    match Attribute.ofWord? head, operands with
    | some flag, operands => operands.forM (markItem flag)
    | none, [] =>
      match head.splitOnce? '=' with
      | some (name, value) => assign name value
      | none => throw (.early (.unsupportedStatement statement))
    | none, _ :: _ => throw (.early (.unsupportedStatement statement))

end Variables

namespace Text

/-- The statements of the rest of a script, when `current` has been read of one of them. The
quotation that is open and whether a backslash precedes the rest are given. -/
def statementsFrom (current : Text) (quotation : Option Char) (escaped : Bool) :
    Text → List Text
  | [] => [current]
  | c :: rest =>
    if escaped then statementsFrom (current ++ [c]) quotation false rest
    else if quotation = some '\'' then
      statementsFrom (current ++ [c]) (if c = '\'' then none else quotation) false rest
    else if c = '\\' then statementsFrom (current ++ [c]) quotation true rest
    else if quotation = some c then statementsFrom (current ++ [c]) none false rest
    else if quotation = none ∧ (c = '\'' ∨ c = '"') then
      statementsFrom (current ++ [c]) (some c) false rest
    else if quotation = none ∧ c = '\n' then current :: statementsFrom [] none false rest
    else statementsFrom (current ++ [c]) quotation false rest

/-- The statements of a script: its parts between the newlines outside quotes. -/
def statements (script : Text) : List Text := statementsFrom [] none false script

end Text

namespace Variables

/-- Carries out a statement of a script, which may be blank or a comment. -/
def applyLine (line : Text) : Attempt Variables Unit :=
  let statement := line.trim
  if statement = [] ∨ statement.head? = some '#' then pure () else applyStatement statement

def applyScript (script : Text) : Attempt Variables Unit := script.statements.forM applyLine

end Variables

end ShellFold
