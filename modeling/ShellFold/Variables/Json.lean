import ShellFold.Json.Record
import ShellFold.Variables

/-!
# Environments as JSON

The document form of variables and environments, each a record.
-/

set_option autoImplicit false

namespace ShellFold

def Variable.ofJson? (value : Json) : Option Variable := do
  let fields ← value.record? { needed := ["value"], further := ["exported", "readonly"] }
  return {
    value := ← fields.required "value" Json.text?
    exported := ← fields.defaulted "exported" false Json.bool?
    readonly := ← fields.defaulted "readonly" false Json.bool? }

def Variables.ofJson? (value : Json) : Option Variables := do
  let fields ← value.fields?
  let definitions ← fields.mapM fun (name, v) =>
    (Variable.ofJson? v).map fun v => (name.toList, v)
  return .ofList definitions

/-- The fields of an environment, each of which may be left out. -/
def Environment.layout : Layout :=
  { needed := [], further := ["variables", "dump_file", "positional", "options"] }

def Environment.ofJson? (value : Json) : Option Environment := do
  let fields ← value.record? Environment.layout
  return {
    vars := ← fields.defaulted "variables" {} Variables.ofJson?
    dumpFile := ← fields.defaulted "dump_file" none (Json.nullable Json.text?)
    positional := ← fields.defaulted "positional" [] (Json.list? Json.text?)
    options := ← fields.defaulted "options" [] Json.text? }

end ShellFold
