import ShellFold.Builtin
import ShellFold.Proofs.Attempt

/-!
# Expanding by position

The expander of this library takes characters off the front of a word. `Indexed.expand` expands the
same word the way a program over an array of characters does: it keeps a position in the word, looks
up characters and cuts out parts by position, and evaluates a reference as soon as it has passed it.
Nothing in its form keeps a position within the word, and the two loops that can go on behind a
reference (`bare`, `quotation`) are bounded by fuel alone. A character or a part that the word does
not have and fuel that is used up are outcomes of their own (`Stop`), so that they can be shown not
to arise. Where the end of the word is an answer, a look-up is written `word[i]?`.

What stands within braces and the word behind an operator are left to a parameter of `dollar` and of
`braces`; only the loops tie the knot.
-/

set_option autoImplicit false

namespace ShellFold

/-- Why an expansion by position ends without fields. -/
inductive Stop
  | failure (e : Failure)
  /-- A position at which a word has no character, or a part that does not lie in it. -/
  | outOfBounds
  | outOfFuel
  deriving DecidableEq, Repr

namespace Indexed

/-- A result that does not depend on positions. -/
def ofExcept {α : Type} (x : Except Failure α) : Except Stop α := x.mapError .failure

def fail {α : Type} (e : Failure) : Except Stop α := .error (.failure e)

theorem ofExcept_bind {α β : Type} (x : Except Failure α) (f : α → Except Failure β) :
    ofExcept (x >>= f) = ofExcept x >>= fun a => ofExcept (f a) := by
  cases x <;> rfl

/-! ## Positions -/

/-- The character at a position. -/
def charAt (word : Text) (i : Nat) : Except Stop Char :=
  match word[i]? with
  | some c => .ok c
  | none => .error .outOfBounds

/-- The part of a word from one position up to another. -/
def slice (word : Text) (start stop : Nat) : Except Stop Text :=
  if start ≤ stop ∧ stop ≤ word.length then .ok ((word.take stop).drop start)
  else .error .outOfBounds

/-- The first position from `start` on at which there is a character of a kind. -/
def find (p : Char → Bool) (word : Text) (start : Nat) : Except Stop (Option Nat) :=
  (List.range' start (word.length - start)).findM? fun i => return p (← charAt word i)

/-- The end of the run of characters of a kind that begins at a position. -/
def runEnd (p : Char → Bool) (word : Text) (start : Nat) : Except Stop Nat := do
  return (← find (!p ·) word start).getD word.length

/-- The position of the brace that closes `depth` open braces, from a position on. A backslash hides
the character behind it, and at the very end of the word leads past it. -/
def closingBrace (word : Text) (depth i : Nat) : Except Stop (Option Nat) :=
  if _h : i < word.length then do
    let c ← charAt word i
    if c = '\\' then closingBrace word depth (i + 2)
    else if c = '{' then closingBrace word (depth + 1) (i + 1)
    else if c = '}' then
      if depth - 1 = 0 then return some i else closingBrace word (depth - 1) (i + 1)
    else closingBrace word depth (i + 1)
  else return none
termination_by word.length - i

/-- Cuts a text behind a number of bytes of its encoding, which must be whole characters. -/
def cutBytes (n : Nat) : Text → Except Stop (Text × Text)
  | [] => if n = 0 then .ok ([], []) else .error .outOfBounds
  | c :: rest =>
    if n = 0 then .ok ([], c :: rest)
    else if c.utf8Size ≤ n then do
      let (front, behind) ← cutBytes (n - c.utf8Size) rest
      return (c :: front, behind)
    else .error .outOfBounds

/-- How many characters at the front of the body of an expansion name a parameter. -/
def nameLength : Text → Nat
  | [] => 0
  | c :: rest =>
    if Text.isNameStart c then 1 + (rest.takeWhile Text.isNameChar).length
    else if c.isDigit then 1 + (rest.takeWhile Char.isDigit).length
    else if isSpecialParameter c then 1
    else 0

/-! ## Steps -/

section

variable (scope : Scope) (split quoted : Bool)

/-- What a backslash adds, by the character behind it and the characters it is lost in front of. -/
def escape (lost : Char → Bool) (next : Option Char) (fields : Fields) : Fields :=
  match next with
  | none => fields.literal ['\\']
  | some c =>
    if c = '\n' then fields else fields.literal (if lost c then [c] else ['\\', c])

/-- What stands behind the name in a body, after a colon (`nonEmpty`) or without one: an operator
and its word, which is left to `nested`. -/
def operation (nested : Text → Fields → Except Stop Fields) (body name : Text) (nonEmpty : Bool)
    (behind : Text) (fields : Fields) : Except Stop Fields :=
  match behind with
  | [] => fail (.unimplemented (.substring body))
  | operator :: word => do
    let value ← ofExcept (scope.lookupScalar name)
    if operator = '-' then
      if counts nonEmpty value then ofExcept (scope.emit split quoted value fields)
      else nested word fields
    else if operator = '+' then
      if counts nonEmpty value then nested word fields else return fields
    else if operator = '=' then fail (.impure .assignmentInExpansion)
    else fail (.unimplemented (.expansion body))

/-- The body of an expansion in braces. -/
def braces (nested : Text → Fields → Except Stop Fields) (body : Text) (fields : Fields) :
    Except Stop Fields :=
  match body with
  | '#' :: c :: rest => ofExcept (scope.emitLength split quoted (c :: rest) fields)
  | _ =>
    if nameLength body = 0 then fail (.unimplemented (.expansion body))
    else do
      let (name, behind) ← cutBytes (nameLength body) body
      match behind with
      | [] => ofExcept (scope.emitValue split quoted name fields)
      | ':' :: rest => operation scope split quoted nested body name true rest fields
      | _ => operation scope split quoted nested body name false behind fields

/-- What the dollar sign at a position begins: the position behind it, and the fields then. The
body of an expansion in braces is left to `inside`. -/
def dollar (inside : Text → Fields → Except Stop Fields) (word : Text) (i : Nat)
    (fields : Fields) : Except Stop (Nat × Fields) :=
  match word[i + 1]? with
  | none => return (i + 1, fields.literal ['$'])
  | some c =>
    if c = '{' then do
      match ← closingBrace word 1 (i + 2) with
      | none => fail (.early .unterminatedBrace)
      | some stop =>
        let fields ← inside (← slice word (i + 2) stop) fields
        return (stop + 1, fields)
    else if c = '(' then
      fail (if word[i + 2]? = some '(' then .unimplemented .arithmetic
        else .impure .commandSubstitution)
    else if !quoted && (c = '\'' || c = '"') then fail (.unimplemented (.dollarQuote c))
    else if Text.isNameStart c then do
      let stop ← runEnd Text.isNameChar word (i + 1)
      let name ← slice word (i + 1) stop
      let fields ← ofExcept (scope.emit split quoted (scope.value? name) fields)
      return (stop, fields)
    else if c.isDigit || isSpecialParameter c then do
      let fields ← ofExcept (scope.emitValue split quoted [c] fields)
      return (i + 2, fields)
    else return (i + 1, fields.literal ['$'])

/-- Whether the dollar sign at a position refers to the list of parameters. -/
def refersToList (word : Text) (i : Nat) : Bool :=
  word[i + 1]? = some '@' || (slice word (i + 1) (i + 3)).toOption = some ['{', '@']

end

/-! ## Loops -/

mutual

/-- Expands a word from a position on, outside of double quotes. -/
def bare (scope : Scope) (split document : Bool) :
    Nat → Text → Nat → Fields → Except Stop Fields
  | 0, _, _, _ => .error .outOfFuel
  | fuel + 1, word, i, fields =>
    if i < word.length then do
      let c ← charAt word i
      if c = '\'' ∧ ¬document then
        match ← find (· = '\'') word (i + 1) with
        | none => fail (.early .unterminatedSingleQuote)
        | some stop =>
          let literal ← slice word (i + 1) stop
          bare scope split document fuel word (stop + 1) (fields.literal literal)
      else if c = '"' ∧ ¬document then
        let (stop, fields) ← quotation scope split true fuel false word (i + 1) fields
        bare scope split document fuel word stop fields
      else if c = '\\' then
        let lost := fun c => !document || c = '$' || c = '\x60' || c = '\\'
        bare scope split document fuel word (i + 2) (escape lost word[i + 1]? fields)
      else if c = '$' then
        let nested := fun word fields =>
          if document then return (← quotation scope split false fuel false word 0 fields).2
          else bare scope split false fuel word 0 fields
        let (next, fields) ←
          dollar scope split document (braces scope split document nested) word i fields
        bare scope split document fuel word next fields
      else if c = '\x60' then fail (.impure .backtick)
      else if c = '[' ∧ ¬document then fail (.unimplemented .bracketGlob)
      else bare scope split document fuel word (i + 1) (fields.literal [c])
    else return fields

/-- Expands a word from a position on as in double quotes: with `closing` up to the quote that ends
them, else to the end of the word. An empty quotation is content, unless the list of parameters was
referred to in it. -/
def quotation (scope : Scope) (split closing : Bool) :
    Nat → Bool → Text → Nat → Fields → Except Stop (Nat × Fields)
  | 0, _, _, _, _ => .error .outOfFuel
  | fuel + 1, sawList, word, i, fields =>
    let atEnd := if sawList then fields else fields.literal []
    match word[i]? with
    | none => if closing then fail (.early .unterminatedDoubleQuote) else return (i, atEnd)
    | some c =>
      if c = '"' ∧ closing then return (i + 1, atEnd)
      else if c = '\\' then
        let fields := escape Text.isEscapable word[i + 1]? fields
        quotation scope split closing fuel sawList word (i + 2) fields
      else if c = '$' then do
        let nested := fun word fields =>
          return (← quotation scope split false fuel false word 0 fields).2
        let (next, fields) ←
          dollar scope split true (braces scope split true nested) word i fields
        quotation scope split closing fuel (sawList || refersToList word i) word next fields
      else if c = '\x60' then fail (.impure .backtick)
      else quotation scope split closing fuel sawList word (i + 1) (fields.literal [c])

end

/-- What a tilde at the front of a word adds, and the position behind it. -/
def tilde (scope : Scope) (word : Text) (fields : Fields) : Except Stop (Nat × Fields) := do
  let stop ← runEnd (· ≠ '/') word 0
  let front ← slice word 0 stop
  if front.any Piece.hidesTilde then return (0, fields)
  else if front = ['~'] then
    match scope.value? "HOME".toList with
    | some directory => return (stop, fields.literal directory)
    | none => fail (.unimplemented .homeUnset)
  else if front = ['~', '+'] ∨ front = ['~', '-'] then fail (.impure (.directoryStack none))
  else fail (.unimplemented (.userTilde front))

/-- What a word expands to. -/
def expand (fuel : Nat) (scope : Scope) (mode : Mode) (word : Text) : Except Stop (List Text) := do
  let (start, fields) ←
    if mode ≠ .heredoc ∧ word[0]? = some '~' then tilde scope word {} else .ok (0, {})
  let rest ← slice word start word.length
  let fields ← bare scope mode.splits (mode = .heredoc) fuel rest 0 fields
  return fields.finish mode.splits

end Indexed

end ShellFold
