import ShellFold.Json.Record
import ShellFold.Tree.Basic

/-!
# Words and commands as JSON

The document form of what trees are made of: words, redirections and simple commands. `toJson`
writes every field; decoding ignores fields it does not know. A redirection is a record tagged by
its `type`.
-/

set_option autoImplicit false

namespace ShellFold

open Json (Members ofText)

/-! ## Tags and names -/

/-- A tag: its name, or, where the record lies within another one (`within`), also the place of the
name among all of them. -/
def tagOfJson? {α : Type} (all : List α) (ofName? : String → Option α) (within : Bool) :
    Json → Option α
  | .string s => ofName? s
  | .int n => if within ∧ 0 ≤ n then all[n.toNat]? else none
  | _ => none

/-- A name that stands for itself: a string, or an object whose one field has that name and holds
nothing. -/
def nameOfJson? : Json → Option String
  | .string s => some s
  | .object [(s, .null)] => some s
  | .object [(s, .object [])] => some s
  | _ => none

/-! ## Words -/

def Fragment.toJson : Fragment → Json
  | raw c => .object [("raw", ofText [c])]
  | quoted text => .object [("quoted", ofText text)]

def Fragment.ofJson? : Json → Option Fragment
  | .object [(name, value)] => do
    let text ← value.text?
    if name = "raw" then
      match text with
      | [c] => return raw c
      | _ => none
    else if name = "quoted" then return quoted text
    else none
  | _ => none

def Word.toJson (w : Word) : Json := .ofList Fragment.toJson w.fragments

def Word.ofJson? (value : Json) : Option Word :=
  (value.list? Fragment.ofJson?).map Word.mk

def Word.listToJson (words : List Word) : Json := .ofList Word.toJson words

def Word.listOfJson? (value : Json) : Option (List Word) := value.list? Word.ofJson?

/-- A signed integer of 32 bits. -/
def int32OfJson? (value : Json) : Option Int32 := do
  let n ← value.int?
  if Int32.minValue.toInt ≤ n ∧ n ≤ Int32.maxValue.toInt then return .ofInt n else none

/-- An unsigned integer of 32 bits. -/
def uint32OfJson? (value : Json) : Option UInt32 := do
  let n ← value.int?
  if 0 ≤ n ∧ n < UInt32.size then return .ofNat n.toNat else none

def Descriptor.toJson : Descriptor → Json
  | fixed n => .object [("fixed", .int n.toInt)]
  | runtime name => .object [("runtime", name.toJson)]

def Descriptor.ofJson? : Json → Option Descriptor
  | .object [(name, value)] =>
    if name = "fixed" then (int32OfJson? value).map fixed
    else if name = "runtime" then (Word.ofJson? value).map runtime
    else none
  | _ => none

/-! ## Redirections -/

def FileOperator.name : FileOperator → String
  | read => "from"
  | write => "to"
  | clobber => "clobber"
  | append => "append"
  | readWrite => "from_to"

def FileOperator.ofJson? (value : Json) : Option FileOperator := do
  let s ← nameOfJson? value
  [read, write, clobber, append, readWrite].find? (·.name == s)

def DuplicateOperator.name : DuplicateOperator → String
  | input => "from_fd"
  | output => "to_fd"

def DuplicateOperator.ofJson? (value : Json) : Option DuplicateOperator := do
  let s ← nameOfJson? value
  [input, output].find? (·.name == s)

def HeredocKind.name : HeredocKind → String
  | literal => "literal"
  | expanding => "expanding"

def HeredocKind.ofJson? (value : Json) : Option HeredocKind := do
  let s ← nameOfJson? value
  [literal, expanding].find? (·.name == s)

/-- What a redirection does, which decides its other fields. -/
inductive RedirectionType
  | file
  | duplicate
  | heredoc
  | close
  deriving DecidableEq, Repr

namespace RedirectionType

def name : RedirectionType → String
  | file => "file"
  | duplicate => "dup"
  | heredoc => "heredoc"
  | close => "single_arg"

def all : List RedirectionType := [file, duplicate, heredoc, close]

def ofName? (name : String) : Option RedirectionType := all.find? (·.name == name)

theorem ofName?_name (t : RedirectionType) : ofName? t.name = some t := by
  cases t <;> decide

/-- The fields of a redirection besides its type. -/
def layout : RedirectionType → Layout
  | file => { needed := ["op", "fd", "target"] }
  | duplicate => { needed := ["op", "fd", "target"] }
  | heredoc => { needed := ["op", "fd", "body"] }
  | close => { needed := ["fd"] }

/-- The document form of a redirection, its type in front of its fields. -/
def tagged (type : RedirectionType) (fields : Members) : Json :=
  .object (("type", .string type.name) :: fields)

end RedirectionType

def Redirection.toJson : Redirection → Json
  | file operator descriptor target =>
    RedirectionType.file.tagged
      [("op", .string operator.name), ("fd", descriptor.toJson), ("target", target.toJson)]
  | duplicate operator descriptor target =>
    RedirectionType.duplicate.tagged
      [("op", .string operator.name), ("fd", descriptor.toJson), ("target", target.toJson)]
  | heredoc kind descriptor body =>
    RedirectionType.heredoc.tagged
      [("op", .string kind.name), ("fd", descriptor.toJson), ("body", body.toJson)]
  | close descriptor => RedirectionType.close.tagged [("fd", descriptor.toJson)]

def Redirection.ofFields? (type : RedirectionType) (fields : Members) : Option Redirection := do
  let descriptor ← fields.required "fd" Descriptor.ofJson?
  match type with
  | .file =>
    return file (← fields.required "op" FileOperator.ofJson?) descriptor
      (← fields.required "target" Word.ofJson?)
  | .duplicate =>
    return duplicate (← fields.required "op" DuplicateOperator.ofJson?) descriptor
      (← fields.required "target" Word.ofJson?)
  | .heredoc =>
    return heredoc (← fields.required "op" HeredocKind.ofJson?) descriptor
      (← fields.required "body" Word.ofJson?)
  | .close => return close descriptor

/-- A redirection from a tagged record, which may lie within another record. -/
def Redirection.read? (within : Bool) (value : Json) : Option Redirection := do
  let tag? := tagOfJson? RedirectionType.all RedirectionType.ofName? within
  let (type, fields) ← (← value.compound?).tagged? "type" tag? RedirectionType.layout
  Redirection.ofFields? type fields

def Redirection.ofJson? (value : Json) : Option Redirection := Redirection.read? false value

def Redirection.listToJson (redirections : List Redirection) : Json :=
  .ofList Redirection.toJson redirections

def Redirection.listOfJson? (value : Json) : Option (List Redirection) :=
  value.list? (Redirection.read? true)

/-! ## Commands -/

def Assignment.toJson (a : Assignment) : Json :=
  .object [("name", ofText a.name), ("value", a.value.toJson)]

def Assignment.ofJson? (value : Json) : Option Assignment := do
  let fields ← value.record? { needed := ["name", "value"] }
  return ⟨← fields.required "name" Json.text?, ← fields.required "value" Word.ofJson?⟩

def Command.toFields (c : Command) : Members :=
  [("line_number", .ofOption (fun n => .int n.toNat) c.lineNumber),
    ("assignments", .ofList Assignment.toJson c.assignments),
    ("arguments", Word.listToJson c.arguments),
    ("redirections", Redirection.listToJson c.redirections)]

/-- A simple command from its fields, each of which may be left out. -/
def Command.ofFields? (fields : Members) : Option Command :=
  return {
    lineNumber := ← fields.defaulted "line_number" none (Json.nullable uint32OfJson?)
    assignments := ← fields.defaulted "assignments" [] (Json.list? Assignment.ofJson?)
    arguments := ← fields.defaulted "arguments" [] Word.listOfJson?
    redirections := ← fields.defaulted "redirections" [] Redirection.listOfJson? }

end ShellFold
