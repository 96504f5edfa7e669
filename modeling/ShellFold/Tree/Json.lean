import ShellFold.Tree.Leaves

/-!
# Trees as JSON

The document form of trees. A node is a record tagged by its `kind`; `toJson` writes it as an
object with every field. Decoding goes bottom up: `Json.reading` is what a value can be as a part
of a tree, made from what its own parts can be, and `Node.ofFields?` says for each construct which
part it has under which name.
-/

set_option autoImplicit false

namespace ShellFold

open Json (Members)

/-! ## Conditional expressions -/

mutual

def Test.toFields : Test → Members
  | .mk operator left right invert =>
    [("op", .ofOption Word.toJson operator), ("left", Operand.toJson? left),
      ("right", Operand.toJson? right), ("invert", .bool invert)]

def Operand.toJson? : Option Operand → Json
  | none => .null
  | some (.word w) => .object [("word", w.toJson)]
  | some (.nested t) => .object [("nested", .object t.toFields)]

end

/-! ## Nodes -/

/-- The document form of a construct, its kind in front of its fields. -/
def Kind.tagged (kind : Kind) (fields : Members) : Json :=
  .object (("kind", .string kind.name) :: fields)

mutual

def Node.toJson : Node → Json
  | .pipe items background =>
    Kind.pipe.tagged [("items", .array (Node.listToJson items)), ("background", .bool background)]
  | .command c => Kind.command.tagged c.toFields
  | .subshell body redirections =>
    Kind.subshell.tagged
      [("body", body.toJson), ("redirections", Redirection.listToJson redirections)]
  | .conjunction left right =>
    Kind.conjunction.tagged [("left", left.toJson), ("right", right.toJson)]
  | .disjunction left right =>
    Kind.disjunction.tagged [("left", left.toJson), ("right", right.toJson)]
  | .sequence left right => Kind.sequence.tagged [("left", left.toJson), ("right", right.toJson)]
  | .negation body => Kind.negation.tagged [("body", body.toJson)]
  | .redirected body redirections =>
    Kind.redirected.tagged
      [("node", body.toJson), ("redirections", Redirection.listToJson redirections)]
  | .background body redirections =>
    Kind.background.tagged
      [("node", body.toJson), ("redirections", Redirection.listToJson redirections)]
  | .function name body => Kind.function.tagged [("name", name.toJson), ("body", body.toJson)]
  | .forLoop bound items body =>
    Kind.forLoop.tagged
      [("variable", bound.toJson), ("items", Word.listToJson items), ("body", body.toJson)]
  | .whileLoop test body => Kind.whileLoop.tagged [("test", test.toJson), ("body", body.toJson)]
  | .conditional condition thenBranch elseBranch =>
    Kind.conditional.tagged
      [("cond", condition.toJson), ("then_branch", thenBranch.toJson),
        ("else_branch", Node.toJson? elseBranch)]
  | .caseOf argument arms =>
    Kind.caseOf.tagged [("argument", argument.toJson), ("cases", .array (Arm.listToJson arms))]
  | .select bound items body =>
    Kind.select.tagged
      [("variable", bound.toJson), ("items", Word.listToJson items), ("body", body.toJson)]
  | .arithmetic body => Kind.arithmetic.tagged [("body", Word.listToJson body)]
  | .test t => Kind.test.tagged t.toFields
  | .arithmeticFor start condition step action =>
    Kind.arithmeticFor.tagged
      [("init", Word.listToJson start), ("cond", Word.listToJson condition),
        ("step", Word.listToJson step), ("action", action.toJson)]
  | .coprocess name body => Kind.coprocess.tagged [("name", name.toJson), ("body", body.toJson)]
  | .timed posix command =>
    Kind.timed.tagged [("posix", .bool posix), ("command", command.toJson)]
  | .group body redirections =>
    Kind.group.tagged
      [("body", body.toJson), ("redirections", Redirection.listToJson redirections)]

def Node.listToJson : List Node → List Json
  | [] => []
  | node :: rest => node.toJson :: Node.listToJson rest

def Node.toJson? : Option Node → Json
  | none => .null
  | some node => node.toJson

def Arm.listToJson : List Arm → List Json
  | [] => []
  | .mk patterns body :: rest =>
    .object [("patterns", Word.listToJson patterns), ("body", Node.toJson? body)]
      :: Arm.listToJson rest

end

/-! ## Reading -/

/-- What a value can be as a part of a tree; what it cannot be is missing. -/
structure Reading where
  value : Json
  node : Option Node := none
  nodes : Option (List Node) := none
  arm : Option Arm := none
  arms : Option (List Arm) := none
  test : Option Test := none
  operand : Option Operand := none

namespace Reading

/-- The values of parts that have been read. -/
def values (parts : Named Reading) : Members := parts.map fun (name, part) => (name, part.value)

/-- What a part or its absence, written as null, stands for. -/
def orNull {α : Type} (decode : Reading → Option α) (part : Reading) : Option (Option α) :=
  if part.value.isNull then some none else (decode part).map some

end Reading

def Test.layout : Layout := { needed := [], further := ["op", "left", "right", "invert"] }

/-- A conditional expression from its fields, each of which may be left out. -/
def Test.ofFields? (parts : Named Reading) : Option Test :=
  return .mk (← (Reading.values parts).defaulted "op" none (Json.nullable Word.ofJson?))
    (← parts.defaulted "left" none (Reading.orNull Reading.operand))
    (← parts.defaulted "right" none (Reading.orNull Reading.operand))
    (← (Reading.values parts).defaulted "invert" false Json.bool?)

def Operand.ofCompound? : Compound Reading → Option Operand
  | .fields [(name, part)] =>
    if name = "word" then (Word.ofJson? part.value).map .word
    else if name = "nested" then part.test.map .nested
    else none
  | _ => none

def Arm.layout : Layout := { needed := ["patterns", "body"] }

def Arm.ofFields? (parts : Named Reading) : Option Arm :=
  return .mk (← (Reading.values parts).required "patterns" Word.listOfJson?)
    (← parts.defaulted "body" none (Reading.orNull Reading.node))

/-- The fields of a construct besides its kind. -/
def Kind.layout : Kind → Layout
  | pipe => { needed := ["items"], further := ["background"] }
  | command =>
    { needed := [], further := ["line_number", "assignments", "arguments", "redirections"] }
  | subshell => { needed := ["body"], further := ["redirections"] }
  | conjunction => { needed := ["left", "right"] }
  | disjunction => { needed := ["left", "right"] }
  | sequence => { needed := ["left", "right"] }
  | negation => { needed := ["body"] }
  | redirected => { needed := ["node", "redirections"] }
  | background => { needed := ["node"], further := ["redirections"] }
  | function => { needed := ["name", "body"] }
  | forLoop => { needed := ["variable", "items", "body"] }
  | whileLoop => { needed := ["test", "body"] }
  | conditional => { needed := ["cond", "then_branch", "else_branch"] }
  | caseOf => { needed := ["argument", "cases"] }
  | select => { needed := ["variable", "items", "body"] }
  | arithmetic => { needed := ["body"] }
  | test => Test.layout
  | arithmeticFor => { needed := ["init", "cond", "step", "action"] }
  | coprocess => { needed := ["name", "body"] }
  | timed => { needed := ["posix", "command"] }
  | group => { needed := ["body"], further := ["redirections"] }

/-- A tree from the fields that its construct has. -/
def Node.ofFields? (kind : Kind) (parts : Named Reading) : Option Node :=
  let fields := Reading.values parts
  match kind with
  | .pipe =>
    return .pipe (← parts.required "items" Reading.nodes)
      (← fields.defaulted "background" false Json.bool?)
  | .command => return .command (← Command.ofFields? fields)
  | .subshell =>
    return .subshell (← parts.required "body" Reading.node)
      (← fields.defaulted "redirections" [] Redirection.listOfJson?)
  | .conjunction =>
    return .conjunction (← parts.required "left" Reading.node)
      (← parts.required "right" Reading.node)
  | .disjunction =>
    return .disjunction (← parts.required "left" Reading.node)
      (← parts.required "right" Reading.node)
  | .sequence =>
    return .sequence (← parts.required "left" Reading.node) (← parts.required "right" Reading.node)
  | .negation => return .negation (← parts.required "body" Reading.node)
  | .redirected =>
    return .redirected (← parts.required "node" Reading.node)
      (← fields.required "redirections" Redirection.listOfJson?)
  | .background =>
    return .background (← parts.required "node" Reading.node)
      (← fields.defaulted "redirections" [] Redirection.listOfJson?)
  | .function =>
    return .function (← fields.required "name" Word.ofJson?) (← parts.required "body" Reading.node)
  | .forLoop =>
    return .forLoop (← fields.required "variable" Word.ofJson?)
      (← fields.required "items" Word.listOfJson?) (← parts.required "body" Reading.node)
  | .whileLoop =>
    return .whileLoop (← parts.required "test" Reading.node) (← parts.required "body" Reading.node)
  | .conditional =>
    return .conditional (← parts.required "cond" Reading.node)
      (← parts.required "then_branch" Reading.node)
      (← parts.defaulted "else_branch" none (Reading.orNull Reading.node))
  | .caseOf =>
    return .caseOf (← fields.required "argument" Word.ofJson?)
      (← parts.required "cases" Reading.arms)
  | .select =>
    return .select (← fields.required "variable" Word.ofJson?)
      (← fields.required "items" Word.listOfJson?) (← parts.required "body" Reading.node)
  | .arithmetic => return .arithmetic (← fields.required "body" Word.listOfJson?)
  | .test => return .test (← Test.ofFields? parts)
  | .arithmeticFor =>
    return .arithmeticFor (← fields.required "init" Word.listOfJson?)
      (← fields.required "cond" Word.listOfJson?) (← fields.required "step" Word.listOfJson?)
      (← parts.required "action" Reading.node)
  | .coprocess =>
    return .coprocess (← fields.required "name" Word.ofJson?)
      (← parts.required "body" Reading.node)
  | .timed =>
    return .timed (← fields.defaulted "posix" false Json.bool?)
      (← parts.required "command" Reading.node)
  | .group =>
    return .group (← parts.required "body" Reading.node)
      (← fields.defaulted "redirections" [] Redirection.listOfJson?)

/-- A tree from a tagged record, which may lie within another tree. -/
def Node.ofCompound? (within : Bool) (parts : Compound Reading) : Option Node := do
  let tag? (part : Reading) : Option Kind := tagOfJson? Kind.all Kind.ofName? within part.value
  let (kind, parts) ← parts.tagged? "kind" tag? Kind.layout
  Node.ofFields? kind parts

/-- The reading of a value whose parts have been read. -/
def Reading.ofCompound (value : Json) (parts : Compound Reading) : Reading where
  value
  node := Node.ofCompound? true parts
  nodes :=
    match parts with
    | .items parts => parts.mapM Reading.node
    | .fields _ => none
  arm := do Arm.ofFields? (← parts.record? Arm.layout)
  arms :=
    match parts with
    | .items parts => parts.mapM Reading.arm
    | .fields _ => none
  test := do Test.ofFields? (← parts.record? Test.layout)
  operand := Operand.ofCompound? parts

namespace Json

mutual

/-- What a value can be as a part of a tree. -/
def reading : Json → Reading
  | array items => .ofCompound (array items) (.items (itemReadings items))
  | object fields => .ofCompound (object fields) (.fields (fieldReadings fields))
  | value => { value }

def itemReadings : List Json → List Reading
  | [] => []
  | value :: rest => value.reading :: itemReadings rest

def fieldReadings : List (String × Json) → Named Reading
  | [] => []
  | (name, value) :: rest => (name, value.reading) :: fieldReadings rest

end

end Json

def Node.ofJson? : Json → Option Node
  | .array items => Node.ofCompound? false (.items (Json.itemReadings items))
  | .object fields => Node.ofCompound? false (.fields (Json.fieldReadings fields))
  | _ => none

end ShellFold
