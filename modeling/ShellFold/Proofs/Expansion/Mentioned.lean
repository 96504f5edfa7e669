import ShellFold.Expansion.Evaluate

/-!
# What an expansion reads

The pieces of a word mention variables (`Piece.names`). What they yield depends on a scope only
through the values of these, through the separators of fields, and through the parameters that are
no variables (`Scope.Alike`): `Piece.evalAll_alike`.
-/

set_option autoImplicit false

namespace ShellFold

mutual

/-- The variables that a piece mentions. -/
def Piece.names : Piece → List Text
  | .text _ | .failure _ => []
  | .home => ["HOME".toList]
  | .value _ name | .length _ name | .rejected name _ => [name]
  | .choice _ _ _ name word => name :: Piece.namesAll word

def Piece.namesAll : List Piece → List Text
  | [] => []
  | piece :: pieces => piece.names ++ Piece.namesAll pieces

end

namespace Scope

/-- The scopes agree on all that is not the value of a variable, and on the separators. -/
structure Alike (a b : Scope) : Prop where
  positional : a.positional = b.positional
  options : a.options = b.options
  separators : a.separators = b.separators

variable {a b : Scope} (hab : a.Alike b)
include hab

theorem Alike.emit : a.emit = b.emit := by
  funext split quoted value fields
  simp only [Scope.emit, hab.separators]

theorem Alike.emitRest : a.emitRest = b.emitRest := by
  funext split quoted values fields
  induction values generalizing fields with
  | nil => rfl
  | cons value values ih => simp only [Scope.emitRest, hab.emit, ih]

theorem Alike.emitList : a.emitList = b.emitList := by
  funext split quoted values fields
  cases values with
  | nil => rfl
  | cons value values => simp only [Scope.emitList, hab.emit, hab.emitRest]

theorem Alike.joined : a.joined = b.joined := by
  simp only [Scope.joined, hab.separators, hab.positional]

theorem Alike.positional? : a.positional? = b.positional? := by
  funext index
  cases index with
  | zero => rfl
  | succ index => simp only [Scope.positional?, hab.positional]

variable {name : Text} (hvalue : a.value? name = b.value? name)
include hvalue

theorem Alike.lookup : a.lookup name = b.lookup name := by
  simp only [Scope.lookup, hvalue, hab.positional, hab.options, hab.positional?]

theorem Alike.lookupScalar : a.lookupScalar name = b.lookupScalar name := by
  simp only [Scope.lookupScalar, hab.lookup hvalue]

theorem Alike.emitValue (split quoted : Bool) :
    a.emitValue split quoted name = b.emitValue split quoted name := by
  funext fields
  simp only [Scope.emitValue, hab.positional, hab.emit, hab.joined, hab.lookup hvalue,
    hab.emitList]

theorem Alike.emitLength (split quoted : Bool) :
    a.emitLength split quoted name = b.emitLength split quoted name := by
  funext fields
  simp only [Scope.emitLength, hab.emit, hab.lookup hvalue]

end Scope

mutual

theorem Piece.eval_alike {a b : Scope} (hab : a.Alike b) (split : Bool) : ∀ piece : Piece,
    (∀ name ∈ piece.names, a.value? name = b.value? name) → ∀ fields,
      piece.eval a split fields = piece.eval b split fields
  | .text _, _, _ => rfl
  | .home, hnames, fields => by
    simp only [Piece.eval, hnames _ (.head _)]
  | .value quoted name, hnames, fields => by
    simp only [Piece.eval, hab.emitValue (hnames name (.head _))]
  | .length quoted name, hnames, fields => by
    simp only [Piece.eval, hab.emitLength (hnames name (.head _))]
  | .choice quoted .default nonEmpty name word, hnames, fields => by
    simp only [Piece.eval, hab.lookupScalar (hnames name (.head _)), hab.emit,
      Piece.evalAll_alike hab split word fun other hother => hnames other (.tail _ hother)]
  | .choice quoted .alternative nonEmpty name word, hnames, fields => by
    simp only [Piece.eval, hab.lookupScalar (hnames name (.head _)),
      Piece.evalAll_alike hab split word fun other hother => hnames other (.tail _ hother)]
  | .rejected name _, hnames, fields => by
    simp only [Piece.eval, hab.lookupScalar (hnames name (.head _))]
  | .failure _, _, _ => rfl

/-- Pieces yield the same in two scopes that agree on the variables they mention. -/
theorem Piece.evalAll_alike {a b : Scope} (hab : a.Alike b) (split : Bool) :
    ∀ pieces : List Piece, (∀ name ∈ Piece.namesAll pieces, a.value? name = b.value? name) →
      ∀ fields, Piece.evalAll a split pieces fields = Piece.evalAll b split pieces fields
  | [], _, _ => rfl
  | piece :: pieces, hnames, fields => by
    simp only [Piece.evalAll, Piece.eval_alike hab split piece
      fun name hname => hnames name (List.mem_append_left _ hname), Piece.evalAll_alike hab split
      pieces fun name hname => hnames name (List.mem_append_right _ hname)]

end

/-- A word expands alike in two scopes that agree on the variables it mentions. -/
theorem Scope.Alike.expand {a b : Scope} (hab : a.Alike b) {mode : Mode} {s : Text}
    (hnames : ∀ name ∈ Piece.namesAll (Piece.ofText mode s), a.value? name = b.value? name) :
    a.expand mode s = b.expand mode s := by
  simp only [Scope.expand, Piece.evalAll_alike hab mode.splits _ hnames]

end ShellFold
