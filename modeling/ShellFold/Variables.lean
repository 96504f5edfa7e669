import ShellFold.Text.Basic

/-!
# Variable tables

A table of shell variables, kept in the order of their names, which is the order in which they
are defined anew. `Variables.get?_insert` says what a definition changes, and two tables that
agree on every name are one table (`Variables.ext_get?`). An `Environment` is the state of the
caller's shell: variables, positional parameters, options, and possibly a file of definitions.
-/

set_option autoImplicit false

namespace ShellFold

structure Variable where
  value : Text
  exported : Bool := false
  readonly : Bool := false
  deriving DecidableEq, Repr

/-- A table of variables with distinct names in increasing order. -/
structure Variables where
  entries : List (Text × Variable)
  sorted : entries.Pairwise fun a b => a.1 < b.1

namespace Variables

/-- The variable of a name among the entries of a table. -/
def find? (name : Text) : List (Text × Variable) → Option Variable
  | [] => none
  | (key, v) :: rest => if key = name then some v else find? name rest

/-- The entries with one of them defined anew. -/
def put (name : Text) (v : Variable) : List (Text × Variable) → List (Text × Variable)
  | [] => [(name, v)]
  | (key, old) :: rest =>
    if name < key then (name, v) :: (key, old) :: rest
    else if key = name then (name, v) :: rest
    else (key, old) :: put name v rest

theorem mem_put {name : Text} {v : Variable} {l : List (Text × Variable)} {e : Text × Variable}
    (h : e ∈ put name v l) : e = (name, v) ∨ e ∈ l := by
  induction l with
  | nil => simpa [put] using h
  | cons a rest ih =>
    obtain ⟨key, old⟩ := a
    simp only [put] at h
    split at h
    · simpa using h
    · split at h
      · simp only [List.mem_cons] at h ⊢
        exact h.imp id .inr
      · simp only [List.mem_cons] at h ⊢
        exact h.elim (fun h => .inr (.inl h)) fun h => (ih h).imp id .inr

theorem pairwise_put {name : Text} {v : Variable} {l : List (Text × Variable)}
    (h : l.Pairwise fun a b => a.1 < b.1) : (put name v l).Pairwise fun a b => a.1 < b.1 := by
  induction l with
  | nil => simp [put]
  | cons a rest ih =>
    obtain ⟨key, old⟩ := a
    obtain ⟨hhead, htail⟩ := List.pairwise_cons.1 h
    simp only [put]
    split
    · next hlt =>
      refine List.pairwise_cons.2 ⟨fun e he => ?_, h⟩
      obtain rfl | he := List.mem_cons.1 he
      · exact hlt
      · exact List.lt_trans hlt (hhead e he)
    · next hlt =>
      split
      · next heq => exact List.pairwise_cons.2 ⟨fun e he => heq ▸ hhead e he, htail⟩
      · next hne =>
        have hkey : key < name :=
          (Std.lt_trichotomy key name).elim id fun h => h.elim (absurd · hne) (absurd · hlt)
        refine List.pairwise_cons.2 ⟨fun e he => ?_, ih htail⟩
        obtain rfl | he := mem_put he
        · exact hkey
        · exact hhead e he

theorem find?_put (name other : Text) (v : Variable) (l : List (Text × Variable)) :
    find? other (put name v l) = if name = other then some v else find? other l := by
  induction l with
  | nil => simp [put, find?]
  | cons a rest ih =>
    obtain ⟨key, old⟩ := a
    simp only [put]
    split
    · simp [find?]
    · split
      · next heq => by_cases h : name = other <;> simp [find?, heq, h]
      · next hne =>
        by_cases h : name = other
        · subst h; simp [find?, hne, ih]
        · simp [find?, ih, h]

/-- What a table finds is one of its entries. -/
theorem mem_of_find? {name : Text} {v : Variable} {l : List (Text × Variable)}
    (h : find? name l = some v) : (name, v) ∈ l := by
  induction l with
  | nil => simp [find?] at h
  | cons a rest ih =>
    obtain ⟨key, old⟩ := a
    simp only [find?] at h
    split at h
    · next heq =>
      simp only [Option.some.injEq] at h
      simp [heq, h]
    · exact List.mem_cons_of_mem _ (ih h)

/-- A table in order finds each of its entries. -/
theorem find?_of_mem {name : Text} {v : Variable} {l : List (Text × Variable)}
    (hs : l.Pairwise fun a b => a.1 < b.1) (h : (name, v) ∈ l) : find? name l = some v := by
  induction l with
  | nil => simp at h
  | cons a rest ih =>
    obtain ⟨hhead, htail⟩ := List.pairwise_cons.1 hs
    obtain rfl | h := List.mem_cons.1 h
    · simp [find?]
    · have hlt : a.1 < name := hhead (name, v) h
      have hne : a.1 ≠ name := fun heq => List.lt_irrefl name (heq ▸ hlt)
      simp [find?, hne, ih htail h]

def empty : Variables := ⟨[], .nil⟩

instance : EmptyCollection Variables := ⟨empty⟩

instance : Inhabited Variables := ⟨empty⟩

def get? (vars : Variables) (name : Text) : Option Variable := find? name vars.entries

def value? (vars : Variables) (name : Text) : Option Text := (vars.get? name).map (·.value)

/-- The table with a variable defined, in place of one of the same name. -/
def insert (vars : Variables) (name : Text) (v : Variable) : Variables :=
  ⟨put name v vars.entries, pairwise_put vars.sorted⟩

/-- The table of a list of definitions, of which a later one counts before an earlier. -/
def ofList (definitions : List (Text × Variable)) : Variables :=
  definitions.foldl (fun vars (name, v) => vars.insert name v) empty

theorem get?_empty (name : Text) : empty.get? name = none := rfl

/-- A definition changes the variable of its name and no other. -/
theorem get?_insert (vars : Variables) (name other : Text) (v : Variable) :
    (vars.insert name v).get? other = if name = other then some v else vars.get? other :=
  find?_put name other v vars.entries

theorem get?_eq_some_iff (vars : Variables) (name : Text) (v : Variable) :
    vars.get? name = some v ↔ (name, v) ∈ vars.entries :=
  ⟨mem_of_find?, find?_of_mem vars.sorted⟩

/-- Two lists in order with the same entries are equal. -/
theorem eq_of_mem_iff {l m : List (Text × Variable)} (hl : l.Pairwise fun a b => a.1 < b.1)
    (hm : m.Pairwise fun a b => a.1 < b.1) (h : ∀ e, e ∈ l ↔ e ∈ m) : l = m := by
  induction l generalizing m with
  | nil =>
    cases m with
    | nil => rfl
    | cons b m => exact absurd ((h b).2 (.head _)) List.not_mem_nil
  | cons a l ih =>
    cases m with
    | nil => exact absurd ((h a).1 (.head _)) List.not_mem_nil
    | cons b m =>
      obtain ⟨hal, hl'⟩ := List.pairwise_cons.1 hl
      obtain ⟨hbm, hm'⟩ := List.pairwise_cons.1 hm
      have hab : a = b := by
        obtain h₁ | h₁ := List.mem_cons.1 ((h a).1 (.head _))
        · exact h₁
        obtain h₂ | h₂ := List.mem_cons.1 ((h b).2 (.head _))
        · exact h₂.symm
        exact absurd (List.lt_trans (hal b h₂) (hbm a h₁)) (List.lt_irrefl _)
      subst hab
      refine congrArg (a :: ·) (ih hl' hm' fun e => ⟨fun he => ?_, fun he => ?_⟩)
      · obtain rfl | h₁ := List.mem_cons.1 ((h e).1 (.tail _ he))
        · exact absurd (hal e he) (List.lt_irrefl _)
        · exact h₁
      · obtain rfl | h₁ := List.mem_cons.1 ((h e).2 (.tail _ he))
        · exact absurd (hbm e he) (List.lt_irrefl _)
        · exact h₁

/-- Tables that agree on every name are equal. -/
theorem ext_get? {vars other : Variables} (h : ∀ name, vars.get? name = other.get? name) :
    vars = other := by
  have he : vars.entries = other.entries :=
    eq_of_mem_iff vars.sorted other.sorted fun (name, v) => by
      rw [← get?_eq_some_iff, ← get?_eq_some_iff, h name]
  cases vars
  cases other
  simp_all

end Variables

/-- The state of the caller's shell that an expansion depends on. -/
structure Environment where
  vars : Variables := {}
  /-- A file of definitions, applied before the variables. -/
  dumpFile : Option Text := none
  positional : List Text := []
  /-- The option flags. -/
  options : Text := []

end ShellFold
