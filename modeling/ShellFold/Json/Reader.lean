import ShellFold.Double
import ShellFold.Json.Record
import ShellFold.Text.Digits

/-!
# Reading JSON text

`Json.read? depth s` is the value a text spells, if it spells exactly one. What is written well
but has no value reads as `invalid`: numbers beyond double precision (`Scaled.isTooLarge`), halves
of surrogate pairs (`readUnits?`), and what is nested deeper than `depth`. Readers take the front
of a text and return what they read with the rest. The fuel of the recursive readers is the length
of the text: each call reads at least one character.
-/

set_option autoImplicit false

namespace ShellFold.Json

open Text (hexDigit? appendDigit ofDigits readDigits?)

/-- Drops the blanks JSON allows between tokens. -/
def skipBlanks (s : Text) : Text :=
  s.dropWhile fun c => c = ' ' || c = '\t' || c = '\n' || c = '\r'

/-! ## Strings -/

/-- The code unit of four hexadecimal digits at the front of a text. -/
def readUnit? : Text → Option (Nat × Text)
  | a :: b :: c :: d :: rest => do
    let units ← [a, b, c, d].mapM hexDigit?
    return (units.foldl (fun n u => 16 * n + u) 0, rest)
  | _ => none

/-- The character a backslash and a letter stand for. -/
def escape? (c : Char) : Option Char :=
  if c = '"' ∨ c = '\\' ∨ c = '/' then some c
  else if c = 'b' then some '\x08'
  else if c = 'f' then some '\x0c'
  else if c = 'n' then some '\n'
  else if c = 'r' then some '\r'
  else if c = 't' then some '\t'
  else none

/-- Whether a code unit is the first half of a character beyond the first plane. -/
def isHighHalf (unit : Nat) : Bool := 0xd800 ≤ unit && unit < 0xdc00

def isLowHalf (unit : Nat) : Bool := 0xdc00 ≤ unit && unit < 0xe000

/-- The character of an escape by code units, of which two make up one character beyond the first
plane. There is none if a half stands alone. -/
def readUnits? (s : Text) : Option (Option Char × Text) := do
  let (unit, rest) ← readUnit? s
  if isLowHalf unit then return (none, rest)
  else if isHighHalf unit then
    match rest with
    | '\\' :: 'u' :: more =>
      let (low, after) ← readUnit? more
      if isLowHalf low then
        return (some (Char.ofNat (0x10000 + (unit - 0xd800) * 0x400 + (low - 0xdc00))), after)
      else return (none, rest)
    | _ => return (none, rest)
  else return (some (Char.ofNat unit), rest)

/-- A text with a further character in front, if both exist. -/
def push? : Option Char → Option Text → Option Text
  | some c, some s => some (c :: s)
  | _, _ => none

/-- The rest of a string whose opening quote and first characters, in reverse, are read. There is
no text if a character is missing. -/
def readString? : Nat → Option Text → Text → Option (Option Text × Text)
  | 0, _, _ => none
  | fuel + 1, done, s =>
    match s with
    | [] => none
    | c :: rest =>
      if c = '"' then some (done.map List.reverse, rest)
      else if c = '\\' then
        match rest with
        | [] => none
        | e :: rest =>
          if e = 'u' then do
            let (c, rest) ← readUnits? rest
            readString? fuel (push? c done) rest
          else do
            let c ← escape? e
            readString? fuel (push? (some c) done) rest
      else if c.toNat < 0x20 then none
      else readString? fuel (push? (some c) done) rest

/-! ## Numbers -/

/-- The digits before the point of a number: no zero precedes another digit. -/
def readWhole? : Text → Option (Text × Text)
  | '0' :: rest => some (['0'], rest)
  | s => readDigits? s

/-- The digits behind the point, if there is a point. -/
def readFraction? : Text → Option (Option Text × Text)
  | '.' :: rest => do
    let (digits, rest) ← readDigits? rest
    return (some digits, rest)
  | s => some (none, s)

/-- The exponent of a number, if it has one. -/
def readExponent? : Text → Option (Option Int × Text)
  | [] => some (none, [])
  | e :: rest =>
    if e = 'e' ∨ e = 'E' then
      match rest with
      | '-' :: rest => do
        let (digits, rest) ← readDigits? rest
        return (some (-(ofDigits digits : Int)), rest)
      | '+' :: rest => do
        let (digits, rest) ← readDigits? rest
        return (some (ofDigits digits : Int), rest)
      | rest => do
        let (digits, rest) ← readDigits? rest
        return (some (ofDigits digits : Int), rest)
    else some (none, e :: rest)

/-- A number cut off to a significand of 64 bits and a power of ten. -/
structure Scaled where
  significand : Nat
  exponent : Int

namespace Scaled

/-- A significand with further digits as long as it stays within 64 bits, and the digits left. -/
def append : Nat → Text → Nat × Text
  | n, [] => (n, [])
  | n, c :: rest =>
    if appendDigit n c < UInt64.size then append (appendDigit n c) rest else (n, c :: rest)

/-- The number of its digits and its exponent. Digits before the point that do not fit count as
zeros, those behind it not at all. -/
def ofParts (whole fraction : Text) (exponent : Int) : Scaled :=
  let (n, wholeLeft) := append 0 whole
  let (n, fractionLeft) := append n fraction
  ⟨n, exponent + wholeLeft.length - (fraction.length - fractionLeft.length)⟩

/-- Whether a number is too large for double precision. The power of ten and the significand are
rounded before they are multiplied, and there is no power above `10 ^ 308`. -/
def isTooLarge (x : Scaled) : Bool :=
  x.significand ≠ 0 && match x.exponent with
    | .ofNat e =>
      308 < e || Double.limit ≤ Double.round x.significand * Double.round (Nat.pow 10 e)
    | .negSucc _ => false

end Scaled

/-- The number of its parts. Without point and exponent it is an integer, except for a negated
zero. -/
def number (negative : Bool) (whole : Text) (fraction : Option Text) (exponent : Option Int) :
    Json :=
  let signed (n : Nat) : Int := if negative then -(n : Int) else n
  let decimals := fraction.getD []
  if (Scaled.ofParts whole decimals (exponent.getD 0)).isTooLarge then invalid
  else if fraction.isNone ∧ exponent.isNone then
    let n := ofDigits whole
    if negative ∧ n = 0 then decimal 0 0 else int (signed n)
  else decimal (signed (ofDigits (whole ++ decimals))) (exponent.getD 0 - decimals.length)

def readNumber? (s : Text) : Option (Json × Text) := do
  let negative := s.head? = some '-'
  let (whole, rest) ← readWhole? (if negative then s.drop 1 else s)
  let (fraction, rest) ← readFraction? rest
  let (exponent, rest) ← readExponent? rest
  return (number negative whole fraction exponent, rest)

/-! ## Values -/

/-- A fixed word at the front of a text. -/
def readWord? (word : String) (value : Json) (s : Text) : Option (Json × Text) :=
  if word.toList.isPrefixOf s then some (value, s.drop word.length) else none

/-- An array or object within `depth` levels. -/
def nested : Nat → Json → Json
  | 0, _ => invalid
  | _ + 1, value => value

/-- A field with others, if its name exists. -/
def addField? : Option Text → Json → Option Members → Option Members
  | some name, value, some fields => some ((.ofList name, value) :: fields)
  | _, _, _ => none

mutual

/-- A value at the front of a text. -/
def readValue? : Nat → Nat → Text → Option (Json × Text)
  | 0, _, _ => none
  | fuel + 1, depth, s =>
    match skipBlanks s with
    | [] => none
    | c :: rest =>
      if c = '"' then do
        let (text, rest) ← readString? (rest.length + 1) (some []) rest
        return (text.elim invalid ofText, rest)
      else if c = '[' then
        match skipBlanks rest with
        | ']' :: rest => some (nested depth (array []), rest)
        | rest => do
          let (items, rest) ← readItems? fuel (depth - 1) [] rest
          return (nested depth (array items), rest)
      else if c = '{' then
        match skipBlanks rest with
        | '}' :: rest => some (nested depth (object []), rest)
        | rest => do
          let (fields, rest) ← readFields? fuel (depth - 1) (some []) rest
          return (nested depth (fields.elim invalid object), rest)
      else if c = 'n' then readWord? "null" null (c :: rest)
      else if c = 't' then readWord? "true" (bool true) (c :: rest)
      else if c = 'f' then readWord? "false" (bool false) (c :: rest)
      else readNumber? (c :: rest)

/-- The items of an array from the next one on, those before it, in reverse, being read. -/
def readItems? : Nat → Nat → List Json → Text → Option (List Json × Text)
  | 0, _, _, _ => none
  | fuel + 1, depth, done, s => do
    let (value, rest) ← readValue? fuel depth s
    match skipBlanks rest with
    | ',' :: rest => readItems? fuel depth (value :: done) rest
    | ']' :: rest => return ((value :: done).reverse, rest)
    | _ => none

/-- The fields of an object from the next one on, those before it, in reverse, being read. There
are no fields if a name is missing. -/
def readFields? : Nat → Nat → Option Members → Text → Option (Option Members × Text)
  | 0, _, _, _ => none
  | fuel + 1, depth, done, s =>
    match skipBlanks s with
    | '"' :: rest => do
      let (name, rest) ← readString? (rest.length + 1) (some []) rest
      match skipBlanks rest with
      | ':' :: rest =>
        let (value, rest) ← readValue? fuel depth rest
        let fields := addField? name value done
        match skipBlanks rest with
        | ',' :: rest => readFields? fuel depth fields rest
        | '}' :: rest => return (fields.map List.reverse, rest)
        | _ => none
      | _ => none
    | _ => none

end

/-- The value of a text with nothing but blanks around it. What is nested deeper than `depth` is
invalid. -/
def read? (depth : Nat) (s : Text) : Option Json := do
  let (value, rest) ← readValue? (s.length + 1) depth s
  if skipBlanks rest = [] then return value else none

end ShellFold.Json
