import ShellFold.Double
import ShellFold.Toml.Value

/-!
# Reading TOML text

`Toml.read? s` is the root table of a document. Readers take the front of a text and return what
they read with the rest; a text that is not TOML, that defines something twice or nests values
deeper than `maxDepth` has no reading. The fuel of recursive readers is the length of the text:
each call reads at least one character.
-/

set_option autoImplicit false

namespace ShellFold.Toml

open Text (hexDigit? ofDigits)

def skipSpace (s : Text) : Text := s.dropWhile fun c => c = ' ' || c = '\t'

/-- Whether a character may not stand in a document as it is. -/
def isControl (c : Char) : Bool := (c.toNat < 0x20 && c != '\t') || c.toNat = 0x7f

/-- The text behind a line end, if one is at the front. -/
def readNewline? : Text → Option Text
  | '\n' :: rest => some rest
  | '\r' :: '\n' :: rest => some rest
  | _ => none

/-- Drops a comment, up to its line end. -/
def skipComment? : Text → Option Text
  | '#' :: rest =>
    let after := rest.dropWhile fun c => !isControl c
    if after = [] ∨ (readNewline? after).isSome then some after else none
  | s => some s

/-- Drops blanks, comments and line ends. -/
def skipLines? : Nat → Text → Option Text
  | 0, _ => none
  | fuel + 1, s => do
    let s ← skipComment? (skipSpace s)
    match readNewline? s with
    | some rest => skipLines? fuel rest
    | none => return s

/-- The text behind the end of a line, blanks and a comment included. -/
def endLine? (s : Text) : Option Text := do
  let s ← skipComment? (skipSpace s)
  if s = [] then return [] else readNewline? s

/-- The character of an escape by its code point. -/
def readCode? (width : Nat) (s : Text) : Option (Char × Text) := do
  let digits := s.take width
  if digits.length < width then none
  let values ← digits.mapM hexDigit?
  let code := values.foldl (fun n d => 16 * n + d) 0
  if h : code.isValidChar then return (Char.ofNatAux code h, s.drop width) else none

/-- The character behind a backslash. -/
def readEscape? : Text → Option (Char × Text)
  | [] => none
  | c :: rest =>
    if c = '"' ∨ c = '\\' then some (c, rest)
    else if c = 'b' then some ('\x08', rest)
    else if c = 't' then some ('\t', rest)
    else if c = 'n' then some ('\n', rest)
    else if c = 'f' then some ('\x0c', rest)
    else if c = 'r' then some ('\r', rest)
    else if c = 'u' then readCode? 4 rest
    else if c = 'U' then readCode? 8 rest
    else none

/-- The rest of a basic string of one line. -/
def readBasic? : Nat → Text → Text → Option (Text × Text)
  | 0, _, _ => none
  | fuel + 1, done, s =>
    match s with
    | [] => none
    | c :: rest =>
      if c = '"' then some (done.reverse, rest)
      else if c = '\\' then do
        let (c, rest) ← readEscape? rest
        readBasic? fuel (c :: done) rest
      else if isControl c then none
      else readBasic? fuel (c :: done) rest

def readLiteral? (s : Text) : Option (Text × Text) :=
  match s.span (· ≠ '\'') with
  | (literal, '\'' :: rest) => if literal.any isControl then none else some (literal, rest)
  | _ => none

/-- The end of a string of several lines at the front of a text: up to two quotes that belong to the
string, and three that close it. -/
def closeLong? (quote : Char) (s : Text) : Option (Text × Text) :=
  let quotes := s.takeWhile (· = quote)
  if quotes.length < 3 then none
  else
    let content := (quotes.drop 3).take 2
    some (content, s.drop (3 + content.length))

/-- Drops blanks and line ends. -/
def skipGap : Text → Text
  | [] => []
  | '\r' :: '\n' :: rest => skipGap rest
  | c :: rest => if c = ' ' ∨ c = '\t' ∨ c = '\n' then skipGap rest else c :: rest

/-- The rest of a string of several lines, in which escapes count if it is basic. Every line end
reads as a line feed. -/
def readLong? (quote : Char) : Nat → Text → Text → Option (Text × Text)
  | 0, _, _ => none
  | fuel + 1, done, s =>
    match closeLong? quote s with
    | some (quotes, rest) => some (done.reverse ++ quotes, rest)
    | none =>
      match s with
      | [] => none
      | c :: rest =>
        if c = '\\' ∧ quote = '"' then
          match readNewline? (skipSpace rest) with
          | some rest => readLong? quote fuel done (skipGap rest)
          | none => do
            let (c, rest) ← readEscape? rest
            readLong? quote fuel (c :: done) rest
        else
          match readNewline? s with
          | some rest => readLong? quote fuel ('\n' :: done) rest
          | none => if isControl c then none else readLong? quote fuel (c :: done) rest

/-- A string of several lines drops a line end right behind its opening quotes. -/
def skipFirstNewline (s : Text) : Text := (readNewline? s).getD s

/-- A string at the front of a text. -/
def readString? (s : Text) : Option (Text × Text) :=
  match s with
  | '"' :: '"' :: '"' :: rest => readLong? '"' (s.length + 1) [] (skipFirstNewline rest)
  | '\'' :: '\'' :: '\'' :: rest => readLong? '\'' (s.length + 1) [] (skipFirstNewline rest)
  | '"' :: rest => readBasic? (s.length + 1) [] rest
  | '\'' :: rest => readLiteral? rest
  | _ => none

/-- Whether a character can stand in a key without quotes. -/
def isKeyChar (c : Char) : Bool := c.isAlphanum || c = '_' || c = '-'

def readKeyPart? (s : Text) : Option (String × Text) :=
  match s with
  | '"' :: rest => (readBasic? (s.length + 1) [] rest).map fun (k, r) => (.ofList k, r)
  | '\'' :: rest => (readLiteral? rest).map fun (k, r) => (.ofList k, r)
  | _ =>
    match s.takeWhile isKeyChar with
    | [] => none
    | key => some (.ofList key, s.dropWhile isKeyChar)

/-- How deep values may be nested, and how many parts a key may have. -/
def maxDepth : Nat := 79

/-- A dotted key of at most so many parts. -/
def readKeyParts? : Nat → Text → Option (List String × Text)
  | 0, _ => none
  | parts + 1, s => do
    let (part, rest) ← readKeyPart? (skipSpace s)
    match skipSpace rest with
    | '.' :: rest => do
      let (path, rest) ← readKeyParts? parts rest
      return (part :: path, rest)
    | rest => return ([part], rest)

def readKey? (s : Text) : Option (List String × Text) := readKeyParts? maxDepth s

/-- The digits of a number with its underscores, each of which stands between two digits. -/
def digits? (isDigit : Char → Bool) (s : Text) : Option Text :=
  let parts := Text.splitOn '_' s
  if parts.all fun part => part ≠ [] && part.all isDigit then some parts.flatten else none

/-- The magnitude of an integer, in one of four bases. -/
def magnitude? (s : Text) : Option Nat :=
  let based (base : Nat) (digits : Text) : Option Nat := do
    let isDigit (c : Char) : Bool := (hexDigit? c).any (· < base)
    let values ← (← digits? isDigit digits).mapM hexDigit?
    return values.foldl (fun n d => base * n + d) 0
  match s with
  | '0' :: 'x' :: rest => based 16 rest
  | '0' :: 'o' :: rest => based 8 rest
  | '0' :: 'b' :: rest => based 2 rest
  | '0' :: _ :: _ => none
  | s => based 10 s

def isSigned (s : Text) : Bool := s.head? = some '-' || s.head? = some '+'

def unsigned (s : Text) : Text := if isSigned s then s.drop 1 else s

/-- An integer of 64 bits; only one in base ten can have a sign. -/
def integer? (s : Text) : Option Int := do
  let body := unsigned s
  if isSigned s ∧ !body.all fun c => c.isDigit || c = '_' then none
  let n ← magnitude? body
  let value : Int := if s.head? = some '-' then -(n : Int) else n
  if Int64.minValue.toInt ≤ value ∧ value ≤ Int64.maxValue.toInt then return value else none

/-- The power of ten of an exponent, sign included. -/
def power? (s : Text) : Option Int := do
  let digits ← digits? Char.isDigit (unsigned s)
  return if s.head? = some '-' then -(ofDigits digits : Int) else ofDigits digits

/-- Whether a text is a number with a fraction or an exponent. A positive number that is too large
for double precision is none; a negative one stands for the infinity below. -/
def isFloat (s : Text) : Bool :=
  let body := unsigned s
  let (mantissa, exponent) := body.span fun c => c ≠ 'e' && c ≠ 'E'
  let (whole, fraction) := mantissa.span (· ≠ '.')
  let decimals := if fraction = [] then some [] else digits? Char.isDigit (fraction.drop 1)
  let power := if exponent = [] then some 0 else power? (exponent.drop 1)
  match digits? Char.isDigit whole, decimals, power with
  | some whole, some decimals, some power =>
    (fraction ≠ [] || exponent ≠ []) && (whole.length = 1 || whole.head? ≠ some '0') &&
      (s.head? = some '-' ||
        !Double.overflows (ofDigits (whole ++ decimals)) (power - decimals.length))
  | _, _, _ => body = "inf".toList || body = "nan".toList

/-- Whether a character can stand in a number or a boolean. -/
def isWordChar (c : Char) : Bool := c.isAlphanum || c ∈ ['_', '-', '+', '.']

/-- The number or boolean of a word. -/
def ofWord? (s : Text) : Option Toml :=
  if s = "true".toList then some (boolean true)
  else if s = "false".toList then some (boolean false)
  else
    match integer? s with
    | some n => some (integer n)
    | none => if isFloat s then some (float (.ofList s)) else none

mutual

/-- A value at the front of a text. -/
def readValue? : Nat → Nat → Text → Option (Toml × Text)
  | 0, _, _ => none
  | fuel + 1, depth, s =>
    match s with
    | [] => none
    | c :: rest =>
      if c = '"' ∨ c = '\'' then (readString? s).map fun (v, r) => (string (.ofList v), r)
      else if c = '[' then
        match depth with
        | 0 => none
        | depth + 1 => readItems? fuel depth [] rest
      else if c = '{' then
        match depth, skipSpace rest with
        | 0, _ => none
        | _ + 1, '}' :: rest => some (table .inline [], rest)
        | depth + 1, rest => readInline? fuel depth [] rest
      else
        match Moment.read? s with
        | some (m, rest) => some (moment m, rest)
        | none => do
          let value ← ofWord? (s.takeWhile isWordChar)
          return (value, s.dropWhile isWordChar)

/-- The items of an array that are still to come. -/
def readItems? : Nat → Nat → List Toml → Text → Option (Toml × Text)
  | 0, _, _, _ => none
  | fuel + 1, depth, done, s => do
    match ← skipLines? (s.length + 1) s with
    | ']' :: rest => return (array done.reverse, rest)
    | s => do
      let (value, rest) ← readValue? fuel depth s
      match ← skipLines? (rest.length + 1) rest with
      | ',' :: rest => readItems? fuel depth (value :: done) rest
      | ']' :: rest => return (array (value :: done).reverse, rest)
      | _ => none

/-- The entries of an inline table from the next one on. -/
def readInline? : Nat → Nat → Entries → Text → Option (Toml × Text)
  | 0, _, _, _ => none
  | fuel + 1, depth, entries, s => do
    let (path, rest) ← readKey? s
    match skipSpace rest with
    | '=' :: rest => do
      let (value, rest) ← readValue? fuel depth (skipSpace rest)
      let entries ← define? value path entries
      match skipSpace rest with
      | ',' :: rest => readInline? fuel depth entries rest
      | '}' :: rest => return (table .inline entries, rest)
      | _ => none
    | _ => none

end

/-- A header and what follows it: the path, and whether it adds to an array of tables. -/
def readHeader? (s : Text) : Option (List String × Bool × Text) :=
  match s with
  | '[' :: '[' :: rest => do
    let (path, rest) ← readKey? rest
    match rest with
    | ']' :: ']' :: rest => return (path, true, rest)
    | _ => none
  | '[' :: rest => do
    let (path, rest) ← readKey? rest
    match rest with
    | ']' :: rest => return (path, false, rest)
    | _ => none
  | _ => none

/-- Reads the rest of a document into the root table, under the header given last. -/
def readLines? : Nat → List String → Entries → Text → Option Entries
  | 0, _, _, _ => none
  | fuel + 1, current, root, s => do
    match ← skipLines? (s.length + 1) s with
    | [] => return root
    | '[' :: rest => do
      let (path, isItem, rest) ← readHeader? ('[' :: rest)
      let root ← (if isItem then openItem? path root else openTable? path root)
      readLines? fuel path root (← endLine? rest)
    | s => do
      let (path, rest) ← readKey? s
      match skipSpace rest with
      | '=' :: rest => do
        let (value, rest) ← readValue? (rest.length + 1) maxDepth (skipSpace rest)
        let root ← change? (define? value path) current root
        readLines? fuel current root (← endLine? rest)
      | _ => none

/-- The root table of a document, which may begin with a byte order mark. -/
def read? (s : Text) : Option Entries :=
  let s := if s.head? = some '\ufeff' then s.drop 1 else s
  readLines? (s.length + 1) [] [] s

end ShellFold.Toml
