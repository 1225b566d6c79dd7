import ConceptAtlas.Proofs.Decimal.Integer
import ConceptAtlas.Proofs.Snapshot.Field

/-!
# Records

Which JSON values are records of nodes and edges, and of what. There are two sides to this, and
neither speaks of how a record is read. `Node.Schema` says of a value which fields it has to have
and of what kinds they are; `Node.Records` says which node a value stands for, where a field that
may be missing has a default. What fits the schema records a node and nothing else does, and to read
a value is to find the node that it records (`Node.exists_records_iff`, `Node.ofJson_eq_ok_iff`);
the same holds of edges.

What does not fit is refused for a cause of parsing, with one exception: an edge whose weight is an
integer that is too large for a double breaks the reader down, if all that is read before the weight
fits (`Edge.ofJson_eq_breakDown_iff`).
-/

namespace ConceptAtlas

/-! ### Nodes -/

namespace Node

/-- The shape of the record of a node. -/
structure Schema (j : Json) : Prop where
  object : j.kind = .obj
  id : ∃ v ∈ j.field? "id", v.kind = .str
  title : ∃ v ∈ j.field? "title", v.kind = .str
  category : ∀ v ∈ j.field? "category", v.kind = .null ∨ v.kind = .str
  source : ∀ v ∈ j.field? "source_id", v.kind = .null ∨ v.kind = .str
  isCanonical : ∀ v ∈ j.field? "is_canonical", v.kind = .bool
  canonicalId : ∀ v ∈ j.field? "canonical_id", v.kind = .null ∨ v.kind = .str
  metadata : ∀ v ∈ j.field? "metadata", v.kind = .null ∨ v.kind = .obj

/-- A value is the record of a node. -/
structure Records (j : Json) (n : Node) : Prop where
  id : j.field? "id" = some (.str n.id)
  title : j.field? "title" = some (.str n.title)
  category : j.fieldOrNull "category" = Json.ofText? n.category
  source : j.fieldOrNull "source_id" = Json.ofText? n.source
  isCanonical : (j.field? "is_canonical").getD (.bool true) = .bool n.isCanonical
  canonicalId : j.fieldOrNull "canonical_id" = Json.ofText? n.canonicalId
  metadata : j.fieldOrNull "metadata" = .obj n.metadata ∨
    j.fieldOrNull "metadata" = .null ∧ n.metadata = []

variable {j : Json}

/-- What fits the schema records a node. -/
theorem exists_records_iff : (∃ n, Records j n) ↔ Schema j := by
  constructor
  · rintro ⟨n, h⟩
    exact {
      object := Json.kind_eq_obj_of_field? h.id
      id := Json.exists_field?_text_iff.1 ⟨_, h.id⟩
      title := Json.exists_field?_text_iff.1 ⟨_, h.title⟩
      category := Json.exists_fieldOrNull_text_iff.1 ⟨_, h.category⟩
      source := Json.exists_fieldOrNull_text_iff.1 ⟨_, h.source⟩
      isCanonical := Json.exists_getD_bool_iff.1 ⟨_, h.isCanonical⟩
      canonicalId := Json.exists_fieldOrNull_text_iff.1 ⟨_, h.canonicalId⟩
      metadata := Json.exists_fieldOrNull_obj_iff.1 ⟨_, h.metadata⟩ }
  · intro h
    obtain ⟨id, hid⟩ := Json.exists_field?_text_iff.2 h.id
    obtain ⟨title, htitle⟩ := Json.exists_field?_text_iff.2 h.title
    obtain ⟨category, hcategory⟩ := Json.exists_fieldOrNull_text_iff.2 h.category
    obtain ⟨source, hsource⟩ := Json.exists_fieldOrNull_text_iff.2 h.source
    obtain ⟨isCanonical, hcanonical⟩ := Json.exists_getD_bool_iff.2 h.isCanonical
    obtain ⟨canonicalId, hcanonicalId⟩ := Json.exists_fieldOrNull_text_iff.2 h.canonicalId
    obtain ⟨metadata, hmetadata⟩ := Json.exists_fieldOrNull_obj_iff.2 h.metadata
    exact ⟨⟨id, title, category, source, isCanonical, canonicalId, metadata⟩, hid, htitle,
      hcategory, hsource, hcanonical, hcanonicalId, hmetadata⟩

theorem ofJson_eq_ok_iff {n : Node} : ofJson j = .ok n ↔ Records j n := by
  constructor
  · intro h
    obtain ⟨_, -, h⟩ := bind_eq_ok.1 h
    obtain ⟨_, hid, h⟩ := bind_eq_ok.1 h
    obtain ⟨id, hid', h⟩ := bind_eq_ok.1 h
    obtain ⟨_, htitle, h⟩ := bind_eq_ok.1 h
    obtain ⟨title, htitle', h⟩ := bind_eq_ok.1 h
    obtain ⟨category, hcategory, h⟩ := bind_eq_ok.1 h
    obtain ⟨source, hsource, h⟩ := bind_eq_ok.1 h
    obtain ⟨isCanonical, hcanonical, h⟩ := bind_eq_ok.1 h
    obtain ⟨canonicalId, hcanonicalId, h⟩ := bind_eq_ok.1 h
    obtain ⟨metadata, hmetadata, rfl⟩ : ∃ metadata, (j.fieldOrNull "metadata" = .obj metadata ∨
        j.fieldOrNull "metadata" = .null ∧ metadata = []) ∧
        ⟨id, title, category, source, isCanonical, canonicalId, metadata⟩ = n := by
      dsimp only at h
      split at h
      · rename_i hnull
        exact ⟨[], .inr ⟨hnull, rfl⟩, Except.ok.inj h⟩
      · obtain ⟨fs, hfs, hn⟩ := bind_eq_ok.1 h
        exact ⟨fs, .inl (Record.fields_eq_ok_iff.1 hfs), Except.ok.inj hn⟩
    exact {
      id := Record.text_eq_ok_iff.1 hid' ▸ Record.required_eq_ok_iff.1 hid
      title := Record.text_eq_ok_iff.1 htitle' ▸ Record.required_eq_ok_iff.1 htitle
      category := Record.text?_eq_ok_iff.1 hcategory
      source := Record.text?_eq_ok_iff.1 hsource
      isCanonical := Record.bool_eq_ok_iff.1 hcanonical
      canonicalId := Record.text?_eq_ok_iff.1 hcanonicalId
      metadata := hmetadata }
  · intro h
    obtain ⟨fs, hfs⟩ := Json.exists_eq_obj_of_kind (Json.kind_eq_obj_of_field? h.id)
    refine bind_eq_ok.2 ⟨fs, Record.fields_eq_ok_iff.2 hfs, ?_⟩
    refine bind_eq_ok.2 ⟨_, Record.required_eq_ok_iff.2 h.id, bind_eq_ok.2 ⟨_, rfl, ?_⟩⟩
    refine bind_eq_ok.2 ⟨_, Record.required_eq_ok_iff.2 h.title, bind_eq_ok.2 ⟨_, rfl, ?_⟩⟩
    refine bind_eq_ok.2 ⟨_, Record.text?_eq_ok_iff.2 h.category, ?_⟩
    refine bind_eq_ok.2 ⟨_, Record.text?_eq_ok_iff.2 h.source, ?_⟩
    refine bind_eq_ok.2 ⟨_, Record.bool_eq_ok_iff.2 h.isCanonical, ?_⟩
    refine bind_eq_ok.2 ⟨_, Record.text?_eq_ok_iff.2 h.canonicalId, ?_⟩
    dsimp only
    rcases h.metadata with hobj | ⟨hnull, hempty⟩
    · rw [hobj]
      rfl
    · rw [hnull]
      exact bind_eq_ok.2 ⟨n.metadata, congrArg Except.ok hempty.symm, rfl⟩

theorem exists_ofJson_iff : (∃ n, ofJson j = .ok n) ↔ Schema j := by
  simp only [ofJson_eq_ok_iff, exists_records_iff]

theorem failsBy_ofJson : FailsBy Failure.IsParse (ofJson j) := by
  refine Record.failsBy_fields.bind fun _ _ ↦ ?_
  refine Record.failsBy_required.bind fun _ _ ↦ Record.failsBy_text.bind fun _ _ ↦ ?_
  refine Record.failsBy_required.bind fun _ _ ↦ Record.failsBy_text.bind fun _ _ ↦ ?_
  refine Record.failsBy_text?.bind fun _ _ ↦ Record.failsBy_text?.bind fun _ _ ↦ ?_
  refine Record.failsBy_bool.bind fun _ _ ↦ Record.failsBy_text?.bind fun _ _ ↦ ?_
  dsimp only
  split
  · exact .ok _
  · exact Record.failsBy_fields.bind fun _ _ ↦ .ok _

end Node

/-! ### Relationships and origins -/

/-- The shape of a relationship: a text, or an object whose only field is called custom, in letters
of any case, and is a text. -/
def Relationship.Schema (j : Json) : Prop :=
  j.kind = .str ∨
    ∃ key v, j = .obj [(key, v)] ∧ Text.toLower key = "custom" ∧ v.kind = .str

/-- A value spells a relationship: by the name of its kind, by its label, or as a custom one. -/
inductive Relationship.Spelled : Json → Relationship → Prop
  | kind {r : Relationship} : r ∈ named → Spelled (.str r.kindName) r
  | label {s : String} : (∀ r ∈ named, r.kindName ≠ s) → Spelled (.str s) (ofLabel s)
  | custom {key label : String} : Text.toLower key = "custom" →
    Spelled (.obj [(key, .str label)]) (.custom label)

namespace Relationship

variable {j : Json} {r : Relationship}

theorem find?_kindName (hr : r ∈ named) :
    (named.find? fun x ↦ x.kindName == r.kindName) = some r := by
  simp only [named, List.mem_cons, List.not_mem_nil, or_false] at hr
  rcases hr with rfl | rfl | rfl <;> decide

theorem ofJson_eq_ok_iff : ofJson j = .ok r ↔ Spelled j r := by
  constructor
  · intro h
    simp only [ofJson] at h
    split at h
    · rename_i s
      cases h
      rcases hfind : (named.find? fun x ↦ x.kindName == s) with - | x
      · have hnone := List.find?_eq_none.1 hfind
        rw [hfind, Option.getD_none]
        exact .label fun y hy ↦ by simpa using hnone y hy
      · have hname : x.kindName = s := by simpa using List.find?_some hfind
        rw [hfind, Option.getD_some, ← hname]
        exact .kind (List.mem_of_find?_eq_some hfind)
    · split at h
      · rename_i hkey
        cases h
        exact .custom hkey
      · cases h
    · cases h
  · rintro (hr | hs | hkey)
    · simp only [ofJson]
      rw [find?_kindName hr, Option.getD_some]
    · simp only [ofJson]
      rw [List.find?_eq_none.2 fun x hx ↦ by simpa using hs x hx, Option.getD_none]
    · exact if_pos hkey

theorem exists_spelled_iff : (∃ r, Spelled j r) ↔ Schema j := by
  constructor
  · rintro ⟨r, hr | hs | hkey⟩
    · exact .inl rfl
    · exact .inl rfl
    · exact .inr ⟨_, _, rfl, hkey, rfl⟩
  · rintro (hkind | ⟨key, v, rfl, hkey, hkind⟩)
    · cases j with
      | str s => exact ⟨_, ofJson_eq_ok_iff.1 rfl⟩
      | _ => nomatch hkind
    · cases v with
      | str label => exact ⟨_, .custom hkey⟩
      | _ => nomatch hkind

theorem failsBy_ofJson : FailsBy Failure.IsParse ((ofJson j).mapError Failure.fault) := by
  simp only [ofJson]
  split
  · exact .ok _
  · split
    · exact .ok _
    · exact .refuse _
  · exact .refuse _

end Relationship

/-- A value spells an origin: it is the origin's name, in letters of any case. -/
def Origin.Spelled (j : Json) (o : Origin) : Prop :=
  ∃ s, j = .str s ∧ Text.toLower s = Text.toLower o.name

namespace Origin

variable {j : Json} {o : Origin}

/-- The names of origins differ even in letters of any case. -/
theorem ofName?_eq_some_iff {s : String} :
    ofName? s = some o ↔ Text.toLower s = Text.toLower o.name := by
  constructor
  · intro h
    simpa using List.find?_some h
  · intro h
    have hname := ofName?_name o
    rw [ofName?] at hname ⊢
    rwa [h]

theorem ofJson_eq_ok_iff : ofJson j = .ok o ↔ Spelled j o := by
  cases j with
  | str s =>
    have hspelled : Spelled (.str s) o ↔ ofName? s = some o := by
      rw [ofName?_eq_some_iff]
      constructor
      · rintro ⟨t, ht, hname⟩
        rwa [Json.str.inj ht]
      · exact fun hname ↦ ⟨s, rfl, hname⟩
    rw [hspelled]
    simp only [ofJson]
    cases ofName? s <;> simp
  | _ =>
    refine iff_of_false (by simp [ofJson]) ?_
    rintro ⟨_, h, -⟩
    cases h

theorem failsBy_ofJson : FailsBy Failure.IsParse ((ofJson j).mapError Failure.fault) := by
  simp only [ofJson]
  split
  · split
    · exact .ok _
    · exact .refuse _
  · exact .refuse _

end Origin

/-! ### Edges -/

namespace Edge

/-- The shape of the record of an edge. -/
structure Schema (j : Json) : Prop where
  object : j.kind = .obj
  source : ∃ v ∈ j.field? "from", v.kind = .str
  target : ∃ v ∈ j.field? "to", v.kind = .str
  relationship : ∃ v ∈ j.field? "relationship", Relationship.Schema v
  weight : ∀ v ∈ j.field? "weight", v.kind = .int ∨ v.kind = .float
  origin : ∀ v ∈ j.field? "origin", ∃ o, Origin.Spelled v o

/-- If the weight of a record is an integer, it fits a double. -/
def WeightFits (j : Json) : Prop :=
  ∀ n, j.field? "weight" = some (.int n) → n.natAbs < Decimal.overflowBound

/-- A record that fits up to its weight, which is an integer that is too large. -/
structure Overweight (j : Json) : Prop where
  object : j.kind = .obj
  source : ∃ v ∈ j.field? "from", v.kind = .str
  target : ∃ v ∈ j.field? "to", v.kind = .str
  relationship : ∃ v ∈ j.field? "relationship", Relationship.Schema v
  weight : ∃ n, j.field? "weight" = some (.int n) ∧ Decimal.overflowBound ≤ n.natAbs

/-- The weight of a record: a double, or an integer that is rounded to one; it is 1 if it is
missing. -/
def Weighs (j : Json) (x : Float) : Prop :=
  (j.field? "weight").getD (.float 1) = .float x ∨
    ∃ n, j.field? "weight" = some (.int n) ∧ Decimal.ofInt? n = some x

/-- A value is the record of an edge. -/
structure Records (j : Json) (e : Edge Float) : Prop where
  source : j.field? "from" = some (.str e.source)
  target : j.field? "to" = some (.str e.target)
  relationship : ∃ v ∈ j.field? "relationship", Relationship.Spelled v e.relationship
  weight : Weighs j e.weight
  origin : Origin.Spelled ((j.field? "origin").getD (.str Origin.frontMatter.name)) e.origin

variable {j : Json} {what : String}

theorem weight_eq_ok_iff {x : Float} :
    Record.weight what ((j.field? "weight").getD (.float 1)) = .ok x ↔ Weighs j x := by
  rw [Weighs]
  rcases j.field? "weight" with - | v
  · simp [Record.weight]
  · cases v with
    | int n =>
      cases hn : Decimal.ofInt? n <;> simp [Record.weight, hn, breakDown]
    | _ => simp [Record.weight, Record.misfit, refuse]

theorem exists_weighs_iff :
    (∃ x, Weighs j x) ↔
      (∀ v ∈ j.field? "weight", v.kind = .int ∨ v.kind = .float) ∧ WeightFits j := by
  simp only [Weighs, WeightFits]
  rcases j.field? "weight" with - | v
  · exact iff_of_true ⟨1, .inl rfl⟩ ⟨nofun, nofun⟩
  simp only [Option.getD_some, Option.mem_some, forall_eq', Option.some.injEq]
  cases v with
  | int n =>
    simp only [Json.int.injEq, exists_eq_left', forall_eq', reduceCtorEq, false_or]
    rw [Decimal.exists_ofInt?_iff]
    exact (and_iff_right (.inl rfl)).symm
  | float x => exact iff_of_true ⟨x, .inl rfl⟩ ⟨.inr rfl, nofun⟩
  | _ => exact iff_of_false (by simp) fun h ↦ (by rcases h.1 with h | h <;> cases h)

/-- What fits the schema, its weight included, records an edge. -/
theorem exists_records_iff : (∃ e, Records j e) ↔ Schema j ∧ WeightFits j := by
  constructor
  · rintro ⟨e, h⟩
    obtain ⟨hweight, hfits⟩ := exists_weighs_iff.1 ⟨_, h.weight⟩
    obtain ⟨v, hv, hspelled⟩ := h.relationship
    refine ⟨?_, hfits⟩
    exact {
      object := Json.kind_eq_obj_of_field? h.source
      source := Json.exists_field?_text_iff.1 ⟨_, h.source⟩
      target := Json.exists_field?_text_iff.1 ⟨_, h.target⟩
      relationship := ⟨v, hv, Relationship.exists_spelled_iff.1 ⟨_, hspelled⟩⟩
      weight := hweight
      origin := fun v hv ↦ by
        have horigin := h.origin
        rw [Option.mem_def.1 hv] at horigin
        exact ⟨e.origin, horigin⟩ }
  · rintro ⟨h, hfits⟩
    obtain ⟨source, hsource⟩ := Json.exists_field?_text_iff.2 h.source
    obtain ⟨target, htarget⟩ := Json.exists_field?_text_iff.2 h.target
    obtain ⟨v, hv, hshape⟩ := h.relationship
    obtain ⟨relationship, hspelled⟩ := Relationship.exists_spelled_iff.2 hshape
    obtain ⟨weight, hweight⟩ := exists_weighs_iff.2 ⟨h.weight, hfits⟩
    obtain ⟨origin, horigin⟩ : ∃ o, Origin.Spelled
        ((j.field? "origin").getD (.str Origin.frontMatter.name)) o := by
      rcases horigin : j.field? "origin" with - | v
      · exact ⟨.frontMatter, _, rfl, rfl⟩
      · exact h.origin v horigin
    exact ⟨⟨source, target, relationship, weight, origin⟩, hsource, htarget, ⟨v, hv, hspelled⟩,
      hweight, horigin⟩

theorem ofJson_eq_ok_iff {e : Edge Float} : ofJson j = .ok e ↔ Records j e := by
  constructor
  · intro h
    obtain ⟨_, -, h⟩ := bind_eq_ok.1 h
    obtain ⟨_, hsource, h⟩ := bind_eq_ok.1 h
    obtain ⟨source, hsource', h⟩ := bind_eq_ok.1 h
    obtain ⟨_, htarget, h⟩ := bind_eq_ok.1 h
    obtain ⟨target, htarget', h⟩ := bind_eq_ok.1 h
    obtain ⟨v, hv, h⟩ := bind_eq_ok.1 h
    obtain ⟨relationship, hrelationship, h⟩ := bind_eq_ok.1 h
    obtain ⟨weight, hweight, h⟩ := bind_eq_ok.1 h
    obtain ⟨origin, horigin, h⟩ := bind_eq_ok.1 h
    cases h
    exact {
      source := Record.text_eq_ok_iff.1 hsource' ▸ Record.required_eq_ok_iff.1 hsource
      target := Record.text_eq_ok_iff.1 htarget' ▸ Record.required_eq_ok_iff.1 htarget
      relationship := ⟨v, Record.required_eq_ok_iff.1 hv,
        Relationship.ofJson_eq_ok_iff.1 (mapError_eq_ok.1 hrelationship)⟩
      weight := weight_eq_ok_iff.1 hweight
      origin := Origin.ofJson_eq_ok_iff.1 (mapError_eq_ok.1 horigin) }
  · intro h
    obtain ⟨fs, hfs⟩ := Json.exists_eq_obj_of_kind (Json.kind_eq_obj_of_field? h.source)
    obtain ⟨v, hv, hspelled⟩ := h.relationship
    refine bind_eq_ok.2 ⟨fs, Record.fields_eq_ok_iff.2 hfs, ?_⟩
    refine bind_eq_ok.2 ⟨_, Record.required_eq_ok_iff.2 h.source, bind_eq_ok.2 ⟨_, rfl, ?_⟩⟩
    refine bind_eq_ok.2 ⟨_, Record.required_eq_ok_iff.2 h.target, bind_eq_ok.2 ⟨_, rfl, ?_⟩⟩
    refine bind_eq_ok.2 ⟨_, Record.required_eq_ok_iff.2 hv, ?_⟩
    refine bind_eq_ok.2 ⟨_, mapError_eq_ok.2 (Relationship.ofJson_eq_ok_iff.2 hspelled), ?_⟩
    refine bind_eq_ok.2 ⟨_, weight_eq_ok_iff.2 h.weight, ?_⟩
    exact bind_eq_ok.2 ⟨_, mapError_eq_ok.2 (Origin.ofJson_eq_ok_iff.2 h.origin), rfl⟩

theorem exists_ofJson_iff : (∃ e, ofJson j = .ok e) ↔ Schema j ∧ WeightFits j := by
  simp only [ofJson_eq_ok_iff, exists_records_iff]

/-- A failure for a cause of parsing, or because of a weight that is too large. -/
def IsFailure (j : Json) (f : Failure) : Prop :=
  f.IsParse ∨ f = .breakdown .weightTooLarge ∧ Overweight j

theorem failsBy_weight {v : Json} : FailsBy (fun f ↦ f.IsParse ∨ f = .breakdown .weightTooLarge ∧
    ∃ n, v = .int n ∧ Decimal.overflowBound ≤ n.natAbs) (Record.weight what v) := by
  cases v with
  | float x => exact .ok x
  | int n =>
    rw [Record.weight]
    rcases hn : Decimal.ofInt? n with - | x
    · rintro f ⟨⟩
      exact .inr ⟨rfl, n, rfl, Decimal.ofInt?_eq_none_iff.1 hn⟩
    · exact .ok x
  | _ => exact Record.failsBy_misfit.mono fun f ↦ .inl

theorem failsBy_ofJson : FailsBy (IsFailure j) (ofJson j) := by
  have hparse : ∀ f : Failure, f.IsParse → IsFailure j f := fun f ↦ .inl
  refine (Record.failsBy_fields.mono hparse).bind fun fs hfs ↦ ?_
  refine (Record.failsBy_required.mono hparse).bind fun _ hsource ↦ ?_
  refine (Record.failsBy_text.mono hparse).bind fun _ hsource' ↦ ?_
  refine (Record.failsBy_required.mono hparse).bind fun _ htarget ↦ ?_
  refine (Record.failsBy_text.mono hparse).bind fun _ htarget' ↦ ?_
  refine (Record.failsBy_required.mono hparse).bind fun v hv ↦ ?_
  refine (Relationship.failsBy_ofJson.mono hparse).bind fun _ hrelationship ↦ ?_
  refine (failsBy_weight.mono ?_).bind fun _ _ ↦ ?_
  · rintro f (hf | ⟨rfl, n, hn, hlarge⟩)
    · exact .inl hf
    · have hweight : j.field? "weight" = some (.int n) := by
        rcases hw : j.field? "weight" with - | w
        · rw [hw] at hn
          cases hn
        · rw [hw] at hn
          exact congrArg some hn
      have hshape := Relationship.exists_spelled_iff.1
        ⟨_, Relationship.ofJson_eq_ok_iff.1 (mapError_eq_ok.1 hrelationship)⟩
      refine .inr ⟨rfl, ?_⟩
      exact {
        object := Json.kind_eq_obj_of_field? hweight
        source := ⟨_, Record.required_eq_ok_iff.1 hsource, Record.text_eq_ok_iff.1 hsource' ▸ rfl⟩
        target := ⟨_, Record.required_eq_ok_iff.1 htarget, Record.text_eq_ok_iff.1 htarget' ▸ rfl⟩
        relationship := ⟨v, Record.required_eq_ok_iff.1 hv, hshape⟩
        weight := ⟨n, hweight, hlarge⟩ }
  · exact (Origin.failsBy_ofJson.mono hparse).bind fun _ _ ↦ .ok _

/-- **A weight that is too large breaks the reader down**, and nothing else in a record does. -/
theorem ofJson_eq_breakDown_iff {b : Breakdown} :
    ofJson j = breakDown b ↔ b = .weightTooLarge ∧ Overweight j := by
  constructor
  · intro h
    rcases failsBy_ofJson _ h with ⟨cause, hcause⟩ | ⟨hb, hover⟩
    · cases hcause
    · exact ⟨Failure.breakdown.inj hb, hover⟩
  · rintro ⟨rfl, h⟩
    obtain ⟨n, hn, hlarge⟩ := h.weight
    obtain ⟨fs, hfs⟩ := Json.exists_eq_obj_of_kind h.object
    obtain ⟨source, hsource⟩ := Json.exists_field?_text_iff.2 h.source
    obtain ⟨target, htarget⟩ := Json.exists_field?_text_iff.2 h.target
    obtain ⟨v, hv, hshape⟩ := h.relationship
    obtain ⟨r, hspelled⟩ := Relationship.exists_spelled_iff.2 hshape
    have hr : (Relationship.ofJson v).mapError Failure.fault = .ok r :=
      mapError_eq_ok.2 (Relationship.ofJson_eq_ok_iff.2 hspelled)
    refine bind_eq_error.2 (.inr ⟨fs, Record.fields_eq_ok_iff.2 hfs, ?_⟩)
    refine bind_eq_error.2 (.inr ⟨_, Record.required_eq_ok_iff.2 hsource, ?_⟩)
    refine bind_eq_error.2 (.inr ⟨_, rfl, ?_⟩)
    refine bind_eq_error.2 (.inr ⟨_, Record.required_eq_ok_iff.2 htarget, ?_⟩)
    refine bind_eq_error.2 (.inr ⟨_, rfl, ?_⟩)
    refine bind_eq_error.2 (.inr ⟨v, Record.required_eq_ok_iff.2 hv, ?_⟩)
    refine bind_eq_error.2 (.inr ⟨r, hr, bind_eq_error.2 (.inl ?_)⟩)
    rw [hn, Option.getD_some, Record.weight, Decimal.ofInt?_eq_none_iff.2 hlarge]
    rfl

end Edge

end ConceptAtlas
