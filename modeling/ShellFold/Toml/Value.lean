import ShellFold.Toml.Moment

/-!
# TOML values

The tables of a TOML document. A table remembers how it came about (`Origin`), because that
decides whether it may be extended: `Toml.openTable?` enters the table that a header names,
`Toml.define?` adds a value under a dotted key. Both refuse what would define a thing twice.
-/

set_option autoImplicit false

namespace ShellFold

/-- How a table came about. -/
inductive Origin
  /-- By the header of a table within it. -/
  | implied
  /-- By a header of its own. -/
  | header
  /-- By a dotted key. -/
  | dotted
  /-- Between braces. -/
  | inline
  deriving DecidableEq, Repr

inductive Toml
  | string (s : String)
  | integer (n : Int)
  | boolean (b : Bool)
  /-- A number that is not an integer, as written. -/
  | float (s : String)
  | moment (m : Moment)
  | array (items : List Toml)
  | table (origin : Origin) (entries : List (String × Toml))
  /-- An array built up by headers, the last table first. -/
  | tables (last : List (String × Toml)) (before : List (List (String × Toml)))

namespace Toml

abbrev Entries := List (String × Toml)

/-- The entries with one of them replaced. -/
def replace (key : String) (value : Toml) (entries : Entries) : Entries :=
  entries.map fun e => if e.1 = key then (key, value) else e

/-- Adds a value under a dotted key, which must not be there yet. On its way the key passes through
tables that have no header of their own and through the last table of an array. The table that is
given the value must be the outermost one or made up by a dotted key as well. -/
def define? (value : Toml) : List String → Entries → Option Entries
  | [], _ => none
  | [key], entries =>
    if (entries.lookup key).isSome then none else some (entries ++ [(key, value)])
  | key :: next :: path, entries =>
    match entries.lookup key with
    | none => do return entries ++ [(key, table .dotted (← define? value (next :: path) []))]
    | some (table .dotted inner) => do
      return replace key (table .dotted (← define? value (next :: path) inner)) entries
    | some (table .implied inner) => do
      if path = [] then none
      return replace key (table .implied (← define? value (next :: path) inner)) entries
    | some (tables last before) => do
      if path = [] then none
      return replace key (tables (← define? value (next :: path) last) before) entries
    | some _ => none

/-- Changes the table at a path, which a header has opened. -/
def change? (f : Entries → Option Entries) : List String → Entries → Option Entries
  | [], entries => f entries
  | key :: path, entries =>
    match entries.lookup key with
    | some (table origin inner) => do
      return replace key (table origin (← change? f path inner)) entries
    | some (tables last before) => do
      return replace key (tables (← change? f path last) before) entries
    | _ => none

/-- Opens the table of a header. -/
def openTable? : List String → Entries → Option Entries
  | [], _ => none
  | [key], entries =>
    match entries.lookup key with
    | none => some (entries ++ [(key, table .header [])])
    | some (table .implied inner) => some (replace key (table .header inner) entries)
    | some _ => none
  | key :: path, entries =>
    match entries.lookup key with
    | none => do return entries ++ [(key, table .implied (← openTable? path []))]
    | some (table .inline _) => none
    | some (table origin inner) => do
      return replace key (table origin (← openTable? path inner)) entries
    | some (tables last before) => do
      return replace key (tables (← openTable? path last) before) entries
    | some _ => none

/-- Adds a table to the array of a header. -/
def openItem? : List String → Entries → Option Entries
  | [], _ => none
  | [key], entries =>
    match entries.lookup key with
    | none => some (entries ++ [(key, tables [] [])])
    | some (tables last before) => some (replace key (tables [] (last :: before)) entries)
    | some _ => none
  | key :: path, entries =>
    match entries.lookup key with
    | none => do return entries ++ [(key, table .implied (← openItem? path []))]
    | some (table .inline _) => none
    | some (table origin inner) => do
      return replace key (table origin (← openItem? path inner)) entries
    | some (tables last before) => do
      return replace key (tables (← openItem? path last) before) entries
    | some _ => none

end Toml

end ShellFold
