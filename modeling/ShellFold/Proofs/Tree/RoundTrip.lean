import ShellFold.Proofs.Tree.Leaves
import ShellFold.Tree.Json

/-!
# Trees read back

What is written of a tree is read as the same tree, by induction over the tree: a construct is told
by its tag, and each of its parts stands under a name of its own (`Node.read?_tagged`). So what is
read of any document, however it was written, survives being written and read once more
(`Node.json_roundTrip`).
-/

set_option autoImplicit false

namespace ShellFold

/-! ## Parts that have been read -/

@[simp] theorem Json.value_reading (value : Json) : value.reading.value = value := by
  cases value <;> rfl

@[simp] theorem Json.fieldReadings_nil : Json.fieldReadings [] = [] := by
  rw [Json.fieldReadings]

@[simp] theorem Json.fieldReadings_cons (name : String) (value : Json)
    (rest : List (String × Json)) :
    Json.fieldReadings ((name, value) :: rest) =
      (name, value.reading) :: Json.fieldReadings rest := by
  rw [Json.fieldReadings]

namespace Reading

@[simp] theorem values_nil : values [] = [] := List.map_nil

@[simp] theorem values_cons (name : String) (part : Reading) (parts : Named Reading) :
    values ((name, part) :: parts) = (name, part.value) :: values parts := List.map_cons

@[simp] theorem values_fieldReadings (fields : List (String × Json)) :
    values (Json.fieldReadings fields) = fields := by
  induction fields with
  | nil => rw [Json.fieldReadings_nil, values_nil]
  | cons field rest ih => rw [Json.fieldReadings_cons, values_cons, ih, Json.value_reading]

theorem under_fieldReadings {α : Type} {fields : List (String × Json)} {name : String}
    {decode : Reading → Option α} (h : ∀ field ∈ fields, field.1 ≠ name) :
    (Json.fieldReadings fields).under name decode = [] := by
  induction fields with
  | nil => simp
  | cons field rest ih =>
    rw [List.forall_mem_cons] at h
    rw [Json.fieldReadings_cons, Named.under_cons_of_ne h.1, ih h.2]

theorem orNull_of_not_null {α : Type} {decode : Reading → Option α} {part : Reading} {a : α}
    (hnull : part.value.isNull = false) (h : decode part = some a) :
    orNull decode part = some (some a) := by
  simp [orNull, hnull, h]

end Reading

/-! ## Conditional expressions -/

/-- A tag is no field of a conditional expression. -/
theorem Test.ofFields?_cons_kind (tag : Reading) (parts : Named Reading) :
    Test.ofFields? (("kind", tag) :: parts) = Test.ofFields? parts := by
  simp [Test.ofFields?]

mutual

theorem Test.ofFields?_toFields : ∀ t : Test,
    Test.ofFields? (Json.fieldReadings t.toFields) = some t
  | .mk operator left right invert => by
    simp [Test.toFields, Test.ofFields?, Operand.orNull_reading left,
      Operand.orNull_reading right, Json.bool?]

theorem Operand.orNull_reading : ∀ operand : Option Operand,
    Reading.orNull Reading.operand (Operand.toJson? operand).reading = some operand
  | none => rfl
  | some (.word w) => by
    refine Reading.orNull_of_not_null (by rw [Json.value_reading]; rfl) ?_
    show Operand.ofCompound? (.fields (Json.fieldReadings [("word", w.toJson)])) = _
    simp [Operand.ofCompound?]
  | some (.nested t) => by
    refine Reading.orNull_of_not_null (by rw [Json.value_reading]; rfl) ?_
    show Operand.ofCompound? (.fields (Json.fieldReadings [("nested", .object t.toFields)])) = _
    have htest : (Json.object t.toFields).reading.test = some t := Test.ofFields?_toFields t
    simp [Operand.ofCompound?, htest]

end

/-! ## Nodes -/

namespace Node

/-- A tree from a value that may lie within another tree. -/
def read? (within : Bool) : Json → Option Node
  | .array items => ofCompound? within (.items (Json.itemReadings items))
  | .object fields => ofCompound? within (.fields (Json.fieldReadings fields))
  | _ => none

theorem ofJson?_eq_read? (value : Json) : ofJson? value = read? false value := by
  cases value <;> rfl

@[simp] theorem node_reading (value : Json) : value.reading.node = read? true value := by
  cases value <;> rfl

/-- A construct is read from its fields, none of which has the name of the tag. -/
theorem read?_tagged (within : Bool) (kind : Kind) {fields : List (String × Json)}
    (hfields : ∀ field ∈ fields, field.1 ≠ "kind") :
    read? within (kind.tagged fields) =
      ofFields? kind (("kind", (Json.string kind.name).reading) :: Json.fieldReadings fields) := by
  have htag : tagOfJson? Kind.all Kind.ofName? within (.string kind.name) = some kind :=
    kind.ofName?_name
  have hno : (Json.fieldReadings fields).under "kind"
      (fun part => tagOfJson? Kind.all Kind.ofName? within part.value) = [] :=
    Reading.under_fieldReadings hfields
  simp [Kind.tagged, read?, ofCompound?, Compound.tagged?, hno, htag]

theorem isNull_toJson (node : Node) : node.toJson.isNull = false := by
  cases node <;> rfl

end Node

mutual

/-- A tree reads back wherever it lies. -/
theorem Node.read?_toJson (within : Bool) : ∀ node : Node,
    Node.read? within node.toJson = some node
  | .pipe items inBackground => by
    rw [Node.toJson, Node.read?_tagged within .pipe (by simp)]
    simp [Node.ofFields?, Node.nodes_reading items, Json.bool?]
  | .command c => by
    rw [Node.toJson, Node.read?_tagged within .command (by simp [Command.toFields])]
    simp [Node.ofFields?, Command.ofFields?_toFields]
  | .subshell body redirections => by
    rw [Node.toJson, Node.read?_tagged within .subshell (by simp)]
    simp [Node.ofFields?, Node.read?_toJson true body]
  | .conjunction left right => by
    rw [Node.toJson, Node.read?_tagged within .conjunction (by simp)]
    simp [Node.ofFields?, Node.read?_toJson true left, Node.read?_toJson true right]
  | .disjunction left right => by
    rw [Node.toJson, Node.read?_tagged within .disjunction (by simp)]
    simp [Node.ofFields?, Node.read?_toJson true left, Node.read?_toJson true right]
  | .sequence left right => by
    rw [Node.toJson, Node.read?_tagged within .sequence (by simp)]
    simp [Node.ofFields?, Node.read?_toJson true left, Node.read?_toJson true right]
  | .negation body => by
    rw [Node.toJson, Node.read?_tagged within .negation (by simp)]
    simp [Node.ofFields?, Node.read?_toJson true body]
  | .redirected body redirections => by
    rw [Node.toJson, Node.read?_tagged within .redirected (by simp)]
    simp [Node.ofFields?, Node.read?_toJson true body]
  | .background body redirections => by
    rw [Node.toJson, Node.read?_tagged within .background (by simp)]
    simp [Node.ofFields?, Node.read?_toJson true body]
  | .function name body => by
    rw [Node.toJson, Node.read?_tagged within .function (by simp)]
    simp [Node.ofFields?, Node.read?_toJson true body]
  | .forLoop bound items body => by
    rw [Node.toJson, Node.read?_tagged within .forLoop (by simp)]
    simp [Node.ofFields?, Node.read?_toJson true body]
  | .whileLoop test body => by
    rw [Node.toJson, Node.read?_tagged within .whileLoop (by simp)]
    simp [Node.ofFields?, Node.read?_toJson true test, Node.read?_toJson true body]
  | .conditional condition thenBranch elseBranch => by
    rw [Node.toJson, Node.read?_tagged within .conditional (by simp)]
    simp [Node.ofFields?, Node.read?_toJson true condition,
      Node.read?_toJson true thenBranch, Node.orNull_reading elseBranch]
  | .caseOf argument arms => by
    rw [Node.toJson, Node.read?_tagged within .caseOf (by simp)]
    simp [Node.ofFields?, Arm.arms_reading arms]
  | .select bound items body => by
    rw [Node.toJson, Node.read?_tagged within .select (by simp)]
    simp [Node.ofFields?, Node.read?_toJson true body]
  | .arithmetic body => by
    rw [Node.toJson, Node.read?_tagged within .arithmetic (by simp)]
    simp [Node.ofFields?]
  | .test t => by
    rw [Node.toJson, Node.read?_tagged within .test (by cases t; simp [Test.toFields])]
    simp [Node.ofFields?, Test.ofFields?_cons_kind, Test.ofFields?_toFields]
  | .arithmeticFor start condition step action => by
    rw [Node.toJson, Node.read?_tagged within .arithmeticFor (by simp)]
    simp [Node.ofFields?, Node.read?_toJson true action]
  | .coprocess name body => by
    rw [Node.toJson, Node.read?_tagged within .coprocess (by simp)]
    simp [Node.ofFields?, Node.read?_toJson true body]
  | .timed posix command => by
    rw [Node.toJson, Node.read?_tagged within .timed (by simp)]
    simp [Node.ofFields?, Node.read?_toJson true command, Json.bool?]
  | .group body redirections => by
    rw [Node.toJson, Node.read?_tagged within .group (by simp)]
    simp [Node.ofFields?, Node.read?_toJson true body]

theorem Node.nodes_reading : ∀ nodes : List Node,
    (Json.array (Node.listToJson nodes)).reading.nodes = some nodes
  | [] => rfl
  | node :: rest => by
    have hrest : (Json.itemReadings (Node.listToJson rest)).mapM Reading.node = some rest :=
      Node.nodes_reading rest
    show (Json.itemReadings (Node.listToJson (node :: rest))).mapM Reading.node = _
    rw [Node.listToJson, Json.itemReadings, List.mapM_cons, Node.node_reading,
      Node.read?_toJson true node, hrest]
    rfl

theorem Node.orNull_reading : ∀ node : Option Node,
    Reading.orNull Reading.node (Node.toJson? node).reading = some node
  | none => rfl
  | some node => by
    refine Reading.orNull_of_not_null ?_ ?_
    · rw [Json.value_reading, Node.toJson?, Node.isNull_toJson]
    · rw [Node.toJson?, Node.node_reading, Node.read?_toJson true node]

theorem Arm.arms_reading : ∀ arms : List Arm,
    (Json.array (Arm.listToJson arms)).reading.arms = some arms
  | [] => rfl
  | .mk patterns body :: rest => by
    have hrest : (Json.itemReadings (Arm.listToJson rest)).mapM Reading.arm = some rest :=
      Arm.arms_reading rest
    have harm : (Json.object [("patterns", Word.listToJson patterns),
        ("body", Node.toJson? body)]).reading.arm = some (.mk patterns body) := by
      show Arm.ofFields? (Json.fieldReadings _) = _
      simp [Arm.ofFields?, Node.orNull_reading body]
    show (Json.itemReadings (Arm.listToJson (.mk patterns body :: rest))).mapM Reading.arm = _
    rw [Arm.listToJson, Json.itemReadings, List.mapM_cons, harm, hrest]
    rfl

end

/-- **Trees survive being written and read.** A tree reads back from its document form, and what is
read of any document, whichever fields it leaves out or has besides, is what is read again when it
has been written. -/
theorem Node.json_roundTrip :
    (∀ node : Node, Node.ofJson? node.toJson = some node) ∧
      ∀ value : Json, (Node.ofJson? value >>= fun node => Node.ofJson? node.toJson) =
        Node.ofJson? value := by
  have hnode (node : Node) : Node.ofJson? node.toJson = some node := by
    rw [Node.ofJson?_eq_read?, Node.read?_toJson]
  refine ⟨hnode, fun value => ?_⟩
  simp only [hnode]
  exact bind_pure _

end ShellFold
