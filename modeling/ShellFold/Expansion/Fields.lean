import ShellFold.Text.Basic

/-!
# Fields

The result of an expansion under construction. Characters are added to the field begun last;
where fields are split, separators within unquoted values end it. A field without any content, not
even an empty quotation, is dropped when it ends. The parameter `split` says whether fields are
split at all: if not, everything is one field.
-/

set_option autoImplicit false

namespace ShellFold

/-- Fields that are finished, and the one that is not. -/
structure Fields where
  done : List Text := []
  current : Text := []
  /-- Something, perhaps an empty quotation, has been put into the current field. -/
  hasContent : Bool := false
  deriving DecidableEq, Repr

namespace Fields

/-- Adds a text as it is; even an empty one counts as content. -/
def literal (fields : Fields) (s : Text) : Fields :=
  { fields with current := fields.current ++ s, hasContent := true }

/-- Ends the current field, if it has content. -/
def endField (fields : Fields) : Fields :=
  if fields.hasContent then { done := fields.done ++ [fields.current] } else fields

/-- Adds one character of an unquoted value, or ends the field there. -/
def addSplit (separators : Text) (fields : Fields) (c : Char) : Fields :=
  if c ∈ separators then fields.endField else fields.literal [c]

def unquoted (split : Bool) (separators : Text) (fields : Fields) (value : Text) : Fields :=
  if split then value.foldl (addSplit separators) fields else fields.literal value

/-- The boundary between two positional parameters. -/
def separate (split quoted : Bool) (fields : Fields) : Fields :=
  if !split then { fields with current := fields.current ++ [' '] }
  else if quoted then { done := fields.done ++ [fields.current] }
  else fields.endField

/-- The fields of a finished expansion. -/
def finish (split : Bool) (fields : Fields) : List Text :=
  if split then fields.endField.done else [fields.current]

end Fields

end ShellFold
