import ShellFold.Json.Value
import ShellFold.Text.Display

/-!
# Writing JSON text

`Json.compact` writes a value without any blanks, the fields of an object in their order.
-/

set_option autoImplicit false

namespace ShellFold.Json

/-- One character within a string. -/
def escapeChar (c : Char) : Text :=
  if c = '"' then ['\\', '"']
  else if c = '\\' then ['\\', '\\']
  else if c = '\n' then ['\\', 'n']
  else if c = '\r' then ['\\', 'r']
  else if c = '\t' then ['\\', 't']
  else if c = '\x08' then ['\\', 'b']
  else if c = '\x0c' then ['\\', 'f']
  else if c.toNat < 0x20 then
    ['\\', 'u', '0', '0'] ++ (if c.toNat < 0x10 then ['0'] else []) ++ Text.hex c.toNat
  else [c]

def quoteString (s : String) : String := .ofList ('"' :: s.toList.flatMap escapeChar ++ ['"'])

mutual

def compact : Json → String
  | null => "null"
  | bool b => if b then "true" else "false"
  | int n => toString n
  | decimal mantissa exponent => toString mantissa ++ "e" ++ toString exponent
  | string s => quoteString s
  | array items => "[" ++ ",".intercalate (compactItems items) ++ "]"
  | object fields => "\x7b" ++ ",".intercalate (compactFields fields) ++ "\x7d"
  | invalid => "null"

def compactItems : List Json → List String
  | [] => []
  | value :: rest => compact value :: compactItems rest

def compactFields : List (String × Json) → List String
  | [] => []
  | (name, value) :: rest => (quoteString name ++ ":" ++ compact value) :: compactFields rest

end

end ShellFold.Json
