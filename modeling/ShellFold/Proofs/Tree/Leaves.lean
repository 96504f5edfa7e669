import ShellFold.Tree.Leaves

/-!
# Words and commands read back

What is written of a word, a redirection or a simple command is read as the same word, redirection
or command. A field is looked up by its name alone, so the tag in front of the others is in nobody's
way (`Named.required_cons_of_ne`, `Named.defaulted_cons_of_ne`).
-/

set_option autoImplicit false

namespace ShellFold

/-! ## Fields -/

namespace Named

variable {α β : Type} {name key : String} {part : α} {parts : Named α} {default : β}
  {decode : α → Option β}

@[simp] theorem under_nil : under ([] : Named α) name decode = [] := by
  rw [under, List.filterMap_nil]

theorem under_cons_self :
    under ((name, part) :: parts) name decode = decode part :: parts.under name decode := by
  simp [under]

@[simp] theorem under_cons_of_ne (h : key ≠ name) :
    under ((key, part) :: parts) name decode = parts.under name decode := by
  simp [under, h]

/-- A field is what stands under its name, if nothing else does. -/
@[simp] theorem required_cons_self (h : parts.under name decode = []) :
    required ((name, part) :: parts) name decode = decode part := by
  rw [required, under_cons_self, h, only?]

@[simp] theorem required_cons_of_ne (h : key ≠ name) :
    required ((key, part) :: parts) name decode = parts.required name decode := by
  rw [required, under_cons_of_ne h, required]

@[simp] theorem defaulted_cons_self (h : parts.under name decode = []) :
    defaulted ((name, part) :: parts) name default decode = decode part := by
  rw [defaulted, under_cons_self, h, only?]

@[simp] theorem defaulted_cons_of_ne (h : key ≠ name) :
    defaulted ((key, part) :: parts) name default decode = parts.defaulted name default decode := by
  rw [defaulted, under_cons_of_ne h, defaulted]

end Named

/-! ## Lists and values that may be absent -/

namespace Json

variable {α : Type} {encode : α → Json} {decode : Json → Option α}

theorem list?_ofList (h : ∀ a, decode (encode a) = some a) (items : List α) :
    (ofList encode items).list? decode = some items := by
  rw [ofList, list?]
  induction items with
  | nil => rfl
  | cons a items ih => rw [List.map_cons, List.mapM_cons, h, ih]; rfl

theorem nullable_ofOption (h : ∀ a, decode (encode a) = some a)
    (hnull : ∀ a, (encode a).isNull = false) (value : Option α) :
    (ofOption encode value).nullable decode = some value := by
  cases value with
  | none => rfl
  | some a => simp [ofOption, nullable, h, hnull]

end Json

/-! ## Words -/

@[simp] theorem Fragment.ofJson?_toJson (f : Fragment) : Fragment.ofJson? f.toJson = some f := by
  cases f <;> simp [toJson, ofJson?, Json.text?_ofText]

@[simp] theorem Word.ofJson?_toJson (w : Word) : Word.ofJson? w.toJson = some w := by
  rw [Word.ofJson?, Word.toJson, Json.list?_ofList Fragment.ofJson?_toJson]
  rfl

@[simp] theorem Word.listOfJson?_listToJson (words : List Word) :
    Word.listOfJson? (Word.listToJson words) = some words :=
  Json.list?_ofList Word.ofJson?_toJson words

@[simp] theorem Word.nullable_ofOption (word : Option Word) :
    (Json.ofOption Word.toJson word).nullable Word.ofJson? = some word :=
  Json.nullable_ofOption Word.ofJson?_toJson (fun _ => rfl) word

/-! ## Redirections -/

@[simp] theorem int32OfJson?_int (n : Int32) : int32OfJson? (.int n.toInt) = some n := by
  have hrange : Int32.minValue.toInt ≤ n.toInt ∧ n.toInt ≤ Int32.maxValue.toInt :=
    ⟨n.minValue_le_toInt, n.toInt_le⟩
  rw [int32OfJson?, Json.int?, Option.bind_eq_bind, Option.bind_some, if_pos hrange,
    Int32.ofInt_toInt]
  rfl

@[simp] theorem uint32OfJson?_int (n : UInt32) : uint32OfJson? (.int n.toNat) = some n := by
  have hrange : (0 : Int) ≤ n.toNat ∧ (n.toNat : Int) < UInt32.size :=
    ⟨Int.natCast_nonneg _, Int.ofNat_lt.2 n.toNat_lt_size⟩
  rw [uint32OfJson?, Json.int?, Option.bind_eq_bind, Option.bind_some, if_pos hrange,
    Int.toNat_natCast, UInt32.ofNat_toNat]
  rfl

@[simp] theorem Descriptor.ofJson?_toJson (d : Descriptor) : Descriptor.ofJson? d.toJson = some d := by
  cases d <;> simp [toJson, ofJson?]

@[simp] theorem FileOperator.ofJson?_name (operator : FileOperator) :
    FileOperator.ofJson? (.string operator.name) = some operator := by
  cases operator <;> rfl

@[simp] theorem DuplicateOperator.ofJson?_name (operator : DuplicateOperator) :
    DuplicateOperator.ofJson? (.string operator.name) = some operator := by
  cases operator <;> rfl

@[simp] theorem HeredocKind.ofJson?_name (kind : HeredocKind) :
    HeredocKind.ofJson? (.string kind.name) = some kind := by
  cases kind <;> rfl

/-- A redirection reads back wherever it lies. -/
@[simp] theorem Redirection.read?_toJson (within : Bool) (r : Redirection) :
    Redirection.read? within r.toJson = some r := by
  have htag (type : RedirectionType) :
      tagOfJson? RedirectionType.all RedirectionType.ofName? within (.string type.name) =
        some type := type.ofName?_name
  cases r <;>
    simp [toJson, RedirectionType.tagged, read?, Json.compound?, Compound.tagged?, htag, ofFields?]

@[simp] theorem Redirection.listOfJson?_listToJson (redirections : List Redirection) :
    Redirection.listOfJson? (Redirection.listToJson redirections) = some redirections :=
  Json.list?_ofList (Redirection.read?_toJson true) redirections

/-! ## Commands -/

@[simp] theorem Assignment.ofJson?_toJson (a : Assignment) : Assignment.ofJson? a.toJson = some a := by
  simp [toJson, ofJson?, Json.record?, Json.compound?, Compound.record?, Json.text?_ofText]

/-- A simple command reads back from its fields, with a tag in front of them. -/
theorem Command.ofFields?_toFields (tag : Json) (c : Command) :
    Command.ofFields? (("kind", tag) :: c.toFields) = some c := by
  have hline : (Json.ofOption (fun n : UInt32 => .int n.toNat) c.lineNumber).nullable
      uint32OfJson? = some c.lineNumber :=
    Json.nullable_ofOption uint32OfJson?_int (fun _ => rfl) c.lineNumber
  simp [toFields, ofFields?, hline, Json.list?_ofList Assignment.ofJson?_toJson]

end ShellFold
