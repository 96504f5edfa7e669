/-!
# JSON values

A JSON value as a document holds it: objects keep their fields in order, repeated names
included, and a number is an integer only if it was written as one. What is well written and yet
has no value is `invalid`; it spoils a document only where its value is asked for, and
`Json.isValid` says that there is none of it anywhere in a value.
-/

set_option autoImplicit false

namespace ShellFold

inductive Json
  | null
  | bool (b : Bool)
  | int (n : Int)
  /-- A number written with a fraction or an exponent: `mantissa * 10 ^ exponent`. -/
  | decimal (mantissa exponent : Int)
  | string (s : String)
  | array (items : List Json)
  | object (fields : List (String × Json))
  /-- A number that is too large, a string with half of a surrogate pair, an object with such a
  name, or an array or object that lies too deep. -/
  | invalid

namespace Json

mutual

/-- Whether a value has no invalid part. -/
def isValid : Json → Bool
  | invalid => false
  | array items => allValid items
  | object fields => fieldsValid fields
  | _ => true

def allValid : List Json → Bool
  | [] => true
  | value :: rest => value.isValid && allValid rest

def fieldsValid : List (String × Json) → Bool
  | [] => true
  | (_, value) :: rest => value.isValid && fieldsValid rest

end

/-- The value itself, if it has no invalid part. -/
def valid? (value : Json) : Option Json := if value.isValid then some value else none

def isNull : Json → Bool
  | null => true
  | _ => false

/-- What a value or its absence, written as null, stands for. -/
def nullable {α : Type} (decode : Json → Option α) (value : Json) : Option (Option α) :=
  if value.isNull then some none else (decode value).map some

def fields? : Json → Option (List (String × Json))
  | object fields => some fields
  | _ => none

def bool? : Json → Option Bool
  | bool b => some b
  | _ => none

def string? : Json → Option String
  | string s => some s
  | _ => none

/-- The characters of a string. -/
def text? (value : Json) : Option (List Char) := value.string?.map String.toList

def int? : Json → Option Int
  | int n => some n
  | _ => none

/-- The items of an array, each read by `decode`. -/
def list? {α : Type} (decode : Json → Option α) : Json → Option (List α)
  | array items => items.mapM decode
  | _ => none

/-- The string of a text. -/
def ofText (s : List Char) : Json := string (.ofList s)

/-- The array of a list, each item written by `encode`. -/
def ofList {α : Type} (encode : α → Json) (items : List α) : Json := array (items.map encode)

/-- A value that may be absent. -/
def ofOption {α : Type} (encode : α → Json) : Option α → Json
  | none => null
  | some a => encode a

/-- A text reads back from its string. -/
theorem text?_ofText (s : List Char) : (ofText s).text? = some s := by
  simp [ofText, text?, string?]

end Json

end ShellFold
