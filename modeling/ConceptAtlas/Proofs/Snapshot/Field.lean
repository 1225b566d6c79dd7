import ConceptAtlas.Graph.Record

/-!
# Fields of records

The readers of single fields, each with the two facts that are used of it: what it accepts, as an
equation on the value that it is given, and that it refuses anything else for a cause of parsing
(`FailsBy`). A field that may be missing or null accepts a value of `Json.fieldOrNull`; which values
of the record itself come to that is said by their kinds.
-/

namespace ConceptAtlas

/-! ### Failing for a cause -/

/-- A failure for a cause of parsing. -/
def Failure.IsParse (f : Failure) : Prop := ∃ cause, f = .fault (.parse cause)

/-- An outcome that fails only in a given way. -/
def FailsBy {α : Type} (p : Failure → Prop) (x : Outcome α) : Prop := ∀ f, x = .error f → p f

namespace FailsBy

variable {α β : Type} {p q : Failure → Prop} {x : Outcome α}

theorem ok (a : α) : FailsBy p (.ok a : Outcome α) := nofun

theorem refuse (cause : ParseCause) :
    FailsBy Failure.IsParse (ConceptAtlas.refuse (.parse cause) : Outcome α) := by
  rintro f ⟨⟩
  exact ⟨cause, rfl⟩

theorem mono (h : FailsBy p x) (hpq : ∀ f, p f → q f) : FailsBy q x := fun f hf ↦ hpq f (h f hf)

theorem bind {f : α → Outcome β} (hx : FailsBy p x) (hf : ∀ a, x = .ok a → FailsBy p (f a)) :
    FailsBy p (x >>= f) := by
  intro e he
  rcases bind_eq_error.1 he with he | ⟨a, ha, he⟩
  · exact hx e he
  · exact hf a ha e he

theorem map {f : α → β} (hx : FailsBy p x) : FailsBy p (x.map f) := by
  cases x with
  | error e =>
    rintro _ ⟨⟩
    exact hx e rfl
  | ok a => exact .ok (f a)

end FailsBy

/-! ### Kinds -/

namespace Json

/-- The kinds of JSON values. -/
inductive Kind
  | null
  | bool
  | int
  | float
  | str
  | arr
  | obj
  deriving DecidableEq, Repr

/-- The kind of a value. -/
def kind : Json → Kind
  | .null => .null
  | .bool _ => .bool
  | .int _ => .int
  | .float _ => .float
  | .str _ => .str
  | .arr _ => .arr
  | .obj _ => .obj

variable {j v : Json} {key : String}

theorem exists_eq_obj_of_kind (h : j.kind = .obj) : ∃ fields, j = .obj fields := by
  cases j with
  | obj fields => exact ⟨fields, rfl⟩
  | _ => nomatch h

theorem kind_eq_obj_of_field? (h : j.field? key = some v) : j.kind = .obj := by
  cases j with
  | obj fields => rfl
  | _ => nomatch h

theorem fieldOrNull_eq_str_iff {s : String} :
    j.fieldOrNull key = .str s ↔ j.field? key = some (.str s) := by
  rw [fieldOrNull]
  cases j.field? key <;> simp

theorem ofText?_eq_str_iff {t : Option String} {s : String} :
    ofText? t = .str s ↔ t = some s := by
  cases t <;> simp [ofText?]

/-- A field of a field; null has none. -/
theorem exists_field?_field?_iff {inner : String} :
    (∃ w, j.field? key = some w ∧ w.field? inner = some v) ↔
      (j.fieldOrNull key).field? inner = some v := by
  rw [fieldOrNull]
  cases j.field? key <;> simp [field?]

/-- A field that has to be a text. -/
theorem exists_field?_text_iff :
    (∃ s, j.field? key = some (.str s)) ↔ ∃ v ∈ j.field? key, v.kind = .str := by
  constructor
  · rintro ⟨s, h⟩
    exact ⟨_, h, rfl⟩
  · rintro ⟨v, h, hkind⟩
    cases v with
    | str s => exact ⟨s, h⟩
    | _ => nomatch hkind

/-- A field that may be missing or null and is a text otherwise. -/
theorem exists_fieldOrNull_text_iff :
    (∃ s, j.fieldOrNull key = ofText? s) ↔
      ∀ v ∈ j.field? key, v.kind = .null ∨ v.kind = .str := by
  rw [fieldOrNull]
  rcases j.field? key with - | v
  · exact iff_of_true ⟨none, rfl⟩ nofun
  · simp only [Option.getD_some, Option.mem_some, forall_eq']
    constructor
    · rintro ⟨s, rfl⟩
      cases s with
      | none => exact .inl rfl
      | some t => exact .inr rfl
    · intro hkind
      cases v with
      | null => exact ⟨none, rfl⟩
      | str s => exact ⟨some s, rfl⟩
      | _ => rcases hkind with h | h <;> nomatch h

/-- A field that may be missing or null and is an object otherwise; null stands for an empty one. -/
theorem exists_fieldOrNull_obj_iff :
    (∃ fs, j.fieldOrNull key = .obj fs ∨ j.fieldOrNull key = .null ∧ fs = []) ↔
      ∀ v ∈ j.field? key, v.kind = .null ∨ v.kind = .obj := by
  rw [fieldOrNull]
  rcases j.field? key with - | v
  · exact iff_of_true ⟨[], .inr ⟨rfl, rfl⟩⟩ nofun
  · simp only [Option.getD_some, Option.mem_some, forall_eq']
    constructor
    · rintro ⟨fs, rfl | ⟨rfl, -⟩⟩
      · exact .inr rfl
      · exact .inl rfl
    · intro hkind
      cases v with
      | null => exact ⟨[], .inr ⟨rfl, rfl⟩⟩
      | obj fs => exact ⟨fs, .inl rfl⟩
      | _ => rcases hkind with h | h <;> nomatch h

/-- A field that may be missing or null and is an integer otherwise. -/
theorem exists_fieldOrNull_int_iff :
    (∃ n : Option Int, j.fieldOrNull key = (n.map Json.int).getD .null) ↔
      ∀ v ∈ j.field? key, v.kind = .null ∨ v.kind = .int := by
  rw [fieldOrNull]
  rcases j.field? key with - | v
  · exact iff_of_true ⟨none, rfl⟩ nofun
  · simp only [Option.getD_some, Option.mem_some, forall_eq']
    constructor
    · rintro ⟨n, rfl⟩
      cases n with
      | none => exact .inl rfl
      | some n => exact .inr rfl
    · intro hkind
      cases v with
      | null => exact ⟨none, rfl⟩
      | int n => exact ⟨some n, rfl⟩
      | _ => rcases hkind with h | h <;> nomatch h

/-- A field that may be missing and is a truth value otherwise. -/
theorem exists_getD_bool_iff {default : Bool} :
    (∃ b, (j.field? key).getD (.bool default) = .bool b) ↔ ∀ v ∈ j.field? key, v.kind = .bool := by
  rcases j.field? key with - | v
  · exact iff_of_true ⟨default, rfl⟩ nofun
  · simp only [Option.getD_some, Option.mem_some, forall_eq']
    constructor
    · rintro ⟨b, rfl⟩
      rfl
    · intro hkind
      cases v with
      | bool b => exact ⟨b, rfl⟩
      | _ => nomatch hkind

end Json

/-! ### Reading fields -/

namespace Record

variable {what key s : String} {j record : Json}

theorem fields_eq_ok_iff {fs : List (String × Json)} : fields what j = .ok fs ↔ j = .obj fs := by
  cases j <;> simp [fields, misfit, refuse]

theorem text_eq_ok_iff : text what j = .ok s ↔ j = .str s := by
  cases j <;> simp [text, misfit, refuse]

theorem text?_eq_ok_iff {t : Option String} : text? what j = .ok t ↔ j = Json.ofText? t := by
  cases t <;> cases j <;> simp [text?, misfit, refuse, Json.ofText?]

theorem bool_eq_ok_iff {b : Bool} : bool what j = .ok b ↔ j = .bool b := by
  cases j <;> simp [bool, misfit, refuse]

theorem int?_eq_ok_iff {n : Option Int} :
    int? what j = .ok n ↔ j = (n.map Json.int).getD .null := by
  cases n <;> cases j <;> simp [int?, misfit, refuse]

theorem items_eq_ok_iff {js : List Json} : items what j = .ok js ↔ j = .arr js := by
  cases j <;> simp [items, misfit, refuse]

theorem required_eq_ok_iff : required what record key = .ok j ↔ record.field? key = some j := by
  rw [required]
  cases record.field? key <;> simp [refuse]

theorem failsBy_misfit {α : Type} : FailsBy Failure.IsParse (misfit what j : Outcome α) :=
  .refuse _

theorem failsBy_fields : FailsBy Failure.IsParse (fields what j) := by
  cases j with
  | obj fs => exact .ok fs
  | _ => exact failsBy_misfit

theorem failsBy_text : FailsBy Failure.IsParse (text what j) := by
  cases j with
  | str s => exact .ok s
  | _ => exact failsBy_misfit

theorem failsBy_text? : FailsBy Failure.IsParse (text? what j) := by
  cases j with
  | null => exact .ok none
  | str s => exact .ok (some s)
  | _ => exact failsBy_misfit

theorem failsBy_bool : FailsBy Failure.IsParse (bool what j) := by
  cases j with
  | bool b => exact .ok b
  | _ => exact failsBy_misfit

theorem failsBy_int? : FailsBy Failure.IsParse (int? what j) := by
  cases j with
  | null => exact .ok none
  | int n => exact .ok (some n)
  | _ => exact failsBy_misfit

theorem failsBy_items : FailsBy Failure.IsParse (items what j) := by
  cases j with
  | arr js => exact .ok js
  | _ => exact failsBy_misfit

theorem failsBy_required : FailsBy Failure.IsParse (required what record key) := by
  rw [required]
  cases record.field? key with
  | none => exact .refuse _
  | some j => exact .ok j

end Record

end ConceptAtlas
