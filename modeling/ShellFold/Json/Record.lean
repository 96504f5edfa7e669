import ShellFold.Json.Value

/-!
# Records

A record is written as an object, its fields by name, or as the array of its fields in order.
`Compound.record?` gives the fields by name in either case, `Compound.tagged?` those of one of
several kinds of records, told apart by a tag. `Named.required` and `Named.defaulted` then look up
a field; one that is given twice counts as an error. The parts of a compound are of any type `α`:
they are values of JSON, or what has already been made of them.
-/

set_option autoImplicit false

namespace ShellFold

/-- Parts under their names, in order. A name may occur several times. -/
abbrev Named (α : Type) := List (String × α)

namespace Named

variable {α β : Type}

/-- What a name stands for, given what was made of each part under it: `absent` if there is none,
and nothing if there are several. -/
def only? (absent : Option β) : List (Option β) → Option β
  | [] => absent
  | [decoded] => decoded
  | _ => none

/-- The parts under a name, in order, each read by `decode`. -/
def under (parts : Named α) (name : String) (decode : α → Option β) : List (Option β) :=
  parts.filterMap fun (key, part) => if key = name then some (decode part) else none

/-- A field that must be given, read by `decode`. -/
def required (parts : Named α) (name : String) (decode : α → Option β) : Option β :=
  only? none (parts.under name decode)

/-- A field that may be left out, for which `default` then stands. -/
def defaulted (parts : Named α) (name : String) (default : β) (decode : α → Option β) : Option β :=
  only? (some default) (parts.under name decode)

end Named

/-- The names of the fields of a record in their order. -/
structure Layout where
  /-- The fields that an array of them must have. -/
  needed : List String
  /-- The fields that may be left out at its end. -/
  further : List String := []

/-- The fields of a record, given as a list in order. -/
def Layout.assign? {α : Type} (layout : Layout) (parts : List α) : Option (Named α) :=
  let names := layout.needed ++ layout.further
  if layout.needed.length ≤ parts.length ∧ parts.length ≤ names.length then
    some (names.zip parts)
  else none

/-- An array or an object, its parts of any type. -/
inductive Compound (α : Type)
  | items (parts : List α)
  | fields (parts : Named α)

namespace Compound

variable {α β : Type}

/-- The fields of a record. -/
def record? (layout : Layout) : Compound α → Option (Named α)
  | items parts => layout.assign? parts
  | fields parts => some parts

/-- The tag of a record and its other fields. In an object the tag is the field `name`, which none
of the others has; in an array it comes first. -/
def tagged? (name : String) (tag? : α → Option β) (layout : β → Layout) :
    Compound α → Option (β × Named α)
  | items [] => none
  | items (part :: parts) => do
    let tag ← tag? part
    return (tag, ← (layout tag).assign? parts)
  | fields parts => do return (← parts.required name tag?, parts)

end Compound

namespace Json

/-- The fields of an object or a record. -/
abbrev Members := Named Json

/-- A value that is an array or an object. -/
def compound? : Json → Option (Compound Json)
  | array items => some (.items items)
  | object fields => some (.fields fields)
  | _ => none

/-- The fields of a value that is a record. -/
def record? (layout : Layout) (value : Json) : Option Members := do
  (← value.compound?).record? layout

end Json

end ShellFold
