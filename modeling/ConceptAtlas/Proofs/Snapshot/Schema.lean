import ConceptAtlas.Proofs.Outcome
import ConceptAtlas.Proofs.Snapshot.Record
import ConceptAtlas.Snapshot.Basic

/-!
# The schema of snapshots

A JSON value is a snapshot if its nodes, its edges and its stamp fit their schemas
(`Snapshot.Schema`), and it records one snapshot then (`Snapshot.Records`). To read a value is to
find the snapshot that it records (`Snapshot.ofJson_eq_ok_iff`). Lists of records are read from
first to last and fail as their first item that does.

**Not every failure is a fault of parsing.** A value breaks its reader down if all that is read
before the weight of some edge fits and that weight is an integer that is too large for a double
(`Snapshot.ofJson_eq_breakDown_iff`). A weight behind a misfit is never looked at.
-/

namespace ConceptAtlas

/-! ### Stamps -/

namespace Stamp

/-- The shape of the record of a stamp. -/
structure Schema (j : Json) : Prop where
  object : j.kind = .obj
  builtAt : ∃ v, v ∈ j.field? "built_at"
  builderVersion : ∃ v, v ∈ j.field? "builder_version"
  contentHash : ∀ v ∈ j.field? "content_hash", v.kind = .null ∨ v.kind = .str
  sourceFileCount : ∀ v ∈ j.field? "source_file_count", v.kind = .null ∨ v.kind = .int

/-- A value is the record of a stamp; what it was built with and when may be given by values of any
kind, which count as their texts. -/
structure Records (j : Json) (m : Stamp) : Prop where
  builtAt : ∃ v ∈ j.field? "built_at", v.text = m.builtAt
  builderVersion : ∃ v ∈ j.field? "builder_version", v.text = m.builderVersion
  contentHash : j.fieldOrNull "content_hash" = Json.ofText? m.contentHash
  sourceFileCount : j.fieldOrNull "source_file_count" =
    (m.sourceFileCount.map Json.int).getD .null

/-- A value is null, or the record of a stamp. -/
inductive Recorded : Json → Option Stamp → Prop
  | none : Recorded .null none
  | some {j : Json} {m : Stamp} : Records j m → Recorded j (some m)

variable {j : Json} {key : String}

theorem exists_records_iff : (∃ m, Records j m) ↔ Schema j := by
  constructor
  · rintro ⟨m, h⟩
    obtain ⟨v, hv, -⟩ := h.builtAt
    obtain ⟨w, hw, -⟩ := h.builderVersion
    exact {
      object := Json.kind_eq_obj_of_field? hv
      builtAt := ⟨v, hv⟩
      builderVersion := ⟨w, hw⟩
      contentHash := Json.exists_fieldOrNull_text_iff.1 ⟨_, h.contentHash⟩
      sourceFileCount := Json.exists_fieldOrNull_int_iff.1 ⟨_, h.sourceFileCount⟩ }
  · intro h
    obtain ⟨v, hv⟩ := h.builtAt
    obtain ⟨w, hw⟩ := h.builderVersion
    obtain ⟨contentHash, hhash⟩ := Json.exists_fieldOrNull_text_iff.2 h.contentHash
    obtain ⟨sourceFileCount, hcount⟩ := Json.exists_fieldOrNull_int_iff.2 h.sourceFileCount
    exact ⟨⟨v.text, w.text, contentHash, sourceFileCount⟩, ⟨v, hv, rfl⟩, ⟨w, hw, rfl⟩, hhash,
      hcount⟩

/-- A field that may be missing or null and is the record of a stamp otherwise. -/
theorem exists_recorded_iff : (∃ m, Recorded (j.fieldOrNull key) m) ↔
    ∀ v ∈ j.field? key, v.kind = .null ∨ Schema v := by
  rw [Json.fieldOrNull]
  rcases j.field? key with - | v
  · exact iff_of_true ⟨none, .none⟩ (by simp)
  · simp only [Option.getD_some, Option.mem_some, forall_eq']
    constructor
    · rintro ⟨m, - | hm⟩
      · exact .inl rfl
      · exact .inr (exists_records_iff.1 ⟨_, hm⟩)
    · rintro (hkind | hschema)
      · cases v with
        | null => exact ⟨none, .none⟩
        | _ => cases hkind
      · obtain ⟨m, hm⟩ := exists_records_iff.2 hschema
        exact ⟨some m, .some hm⟩

theorem requiredText_eq_ok_iff {s : String} :
    requiredText j key = .ok s ↔ ∃ v ∈ j.field? key, v.text = s := by
  rw [requiredText]
  cases j.field? key <;> simp [refuse]

theorem failsBy_requiredText : FailsBy Failure.IsParse (requiredText j key) := by
  rw [requiredText]
  cases j.field? key with
  | none => exact .refuse _
  | some v => exact .ok _

theorem ofJson_eq_ok_iff {m : Stamp} : ofJson j = .ok m ↔ Records j m := by
  constructor
  · intro h
    obtain ⟨_, -, h⟩ := bind_eq_ok.1 h
    obtain ⟨builtAt, hbuilt, h⟩ := bind_eq_ok.1 h
    obtain ⟨builderVersion, hversion, h⟩ := bind_eq_ok.1 h
    obtain ⟨contentHash, hhash, h⟩ := bind_eq_ok.1 h
    obtain ⟨sourceFileCount, hcount, h⟩ := bind_eq_ok.1 h
    cases h
    exact ⟨requiredText_eq_ok_iff.1 hbuilt, requiredText_eq_ok_iff.1 hversion,
      Record.text?_eq_ok_iff.1 hhash, Record.int?_eq_ok_iff.1 hcount⟩
  · intro h
    obtain ⟨fs, hfs⟩ := Json.exists_eq_obj_of_kind (exists_records_iff.1 ⟨m, h⟩).object
    refine bind_eq_ok.2 ⟨fs, Record.fields_eq_ok_iff.2 hfs, ?_⟩
    refine bind_eq_ok.2 ⟨_, requiredText_eq_ok_iff.2 h.builtAt, ?_⟩
    refine bind_eq_ok.2 ⟨_, requiredText_eq_ok_iff.2 h.builderVersion, ?_⟩
    refine bind_eq_ok.2 ⟨_, Record.text?_eq_ok_iff.2 h.contentHash, ?_⟩
    exact bind_eq_ok.2 ⟨_, Record.int?_eq_ok_iff.2 h.sourceFileCount, rfl⟩

theorem failsBy_ofJson : FailsBy Failure.IsParse (ofJson j) := by
  refine Record.failsBy_fields.bind fun _ _ ↦ ?_
  refine failsBy_requiredText.bind fun _ _ ↦ failsBy_requiredText.bind fun _ _ ↦ ?_
  exact Record.failsBy_text?.bind fun _ _ ↦ Record.failsBy_int?.bind fun _ _ ↦ .ok _

end Stamp

/-! ### Snapshots -/

namespace Snapshot

/-- The shape of a snapshot. -/
structure Schema (j : Json) : Prop where
  object : j.kind = .obj
  nodes : ∃ items, j.field? "nodes" = some (.arr items) ∧ ∀ r ∈ items, Node.Schema r
  edges : ∃ items, j.field? "edges" = some (.arr items) ∧ ∀ r ∈ items, Edge.Schema r
  stamp : ∀ v ∈ j.field? "metadata", v.kind = .null ∨ Stamp.Schema v

/-- The integers among the weights fit doubles. -/
def WeightsFit (j : Json) : Prop :=
  ∀ items, j.field? "edges" = some (.arr items) → ∀ r ∈ items, Edge.WeightFits r

/-- A value is the record of a snapshot: of its nodes, its edges and its stamp. -/
structure Records (j : Json) (s : Snapshot) : Prop where
  nodes : ∃ items, j.field? "nodes" = some (.arr items) ∧ List.Forall₂ Node.Records items s.nodes
  edges : ∃ items, j.field? "edges" = some (.arr items) ∧ List.Forall₂ Edge.Records items s.edges
  stamp : Stamp.Recorded (j.fieldOrNull "metadata") s.stamp

/-- A value that fits up to the weight of an edge, which is an integer that is too large. -/
def Overweight (j : Json) : Prop :=
  ∃ nodes before r after,
    j.field? "nodes" = some (.arr nodes) ∧ (∀ n ∈ nodes, Node.Schema n) ∧
    j.field? "edges" = some (.arr (before ++ r :: after)) ∧
    (∀ e ∈ before, Edge.Schema e ∧ Edge.WeightFits e) ∧ Edge.Overweight r

variable {j : Json}

theorem exists_forall₂_iff {α β : Type} {R : α → β → Prop} {xs : List α} :
    (∃ ys, List.Forall₂ R xs ys) ↔ ∀ x ∈ xs, ∃ y, R x y := by
  induction xs with
  | nil => exact iff_of_true ⟨[], .nil⟩ (List.forall_mem_nil _)
  | cons x xs ih =>
    rw [List.forall_mem_cons, ← ih]
    constructor
    · rintro ⟨_, _ | ⟨hx, hxs⟩⟩
      exact ⟨⟨_, hx⟩, _, hxs⟩
    · rintro ⟨⟨y, hy⟩, ys, hys⟩
      exact ⟨y :: ys, .cons hy hys⟩

/-- What fits the schema, its weights included, records a snapshot. -/
theorem exists_records_iff : (∃ s, Records j s) ↔ Schema j ∧ WeightsFit j := by
  constructor
  · rintro ⟨s, h⟩
    obtain ⟨nodes, hnodes, hns⟩ := h.nodes
    obtain ⟨edges, hedges, hes⟩ := h.edges
    have hnode := exists_forall₂_iff.1 ⟨_, hns⟩
    have hedge := exists_forall₂_iff.1 ⟨_, hes⟩
    refine ⟨?_, fun items hitems r hr ↦ ?_⟩
    · exact {
        object := Json.kind_eq_obj_of_field? hnodes
        nodes := ⟨nodes, hnodes, fun r hr ↦ Node.exists_records_iff.1 (hnode r hr)⟩
        edges := ⟨edges, hedges, fun r hr ↦ (Edge.exists_records_iff.1 (hedge r hr)).1⟩
        stamp := Stamp.exists_recorded_iff.1 ⟨_, h.stamp⟩ }
    · cases hedges.symm.trans hitems
      exact (Edge.exists_records_iff.1 (hedge r hr)).2
  · rintro ⟨h, hfit⟩
    obtain ⟨nodes, hnodes, hnode⟩ := h.nodes
    obtain ⟨edges, hedges, hedge⟩ := h.edges
    obtain ⟨ns, hns⟩ := exists_forall₂_iff.2 fun r hr ↦ Node.exists_records_iff.2 (hnode r hr)
    obtain ⟨es, hes⟩ := exists_forall₂_iff.2 fun r hr ↦
      Edge.exists_records_iff.2 ⟨hedge r hr, hfit edges hedges r hr⟩
    obtain ⟨stamp, hstamp⟩ := Stamp.exists_recorded_iff.2 h.stamp
    exact ⟨⟨ns, es, stamp⟩, ⟨nodes, hnodes, hns⟩, ⟨edges, hedges, hes⟩, hstamp⟩

theorem mapM_node_eq_ok_iff {items : List Json} {ns : List Node} :
    items.mapM Node.ofJson = .ok ns ↔ List.Forall₂ Node.Records items ns := by
  rw [mapM_eq_ok_iff]
  simp only [Node.ofJson_eq_ok_iff]

theorem mapM_edge_eq_ok_iff {items : List Json} {es : List (Edge Float)} :
    items.mapM Edge.ofJson = .ok es ↔ List.Forall₂ Edge.Records items es := by
  rw [mapM_eq_ok_iff]
  simp only [Edge.ofJson_eq_ok_iff]

theorem ofJson_eq_ok_iff {s : Snapshot} : ofJson j = .ok s ↔ Records j s := by
  constructor
  · intro h
    unfold ofJson at h
    split at h
    · split at h
      · rename_i hnodes hedges
        simp only [bind_eq_ok, Record.items_eq_ok_iff, mapM_node_eq_ok_iff,
          mapM_edge_eq_ok_iff] at h
        obtain ⟨nodes, rfl, ns, hns, edges, rfl, es, hes, h⟩ := h
        split at h
        · rename_i hnull
          cases h
          exact ⟨⟨nodes, hnodes, hns⟩, ⟨edges, hedges, hes⟩, hnull ▸ .none⟩
        · obtain ⟨stamp, hstamp, h⟩ := bind_eq_ok.1 h
          obtain ⟨m, hm, rfl⟩ := map_eq_ok.1 hstamp
          cases h
          exact ⟨⟨nodes, hnodes, hns⟩, ⟨edges, hedges, hes⟩,
            .some (Stamp.ofJson_eq_ok_iff.1 hm)⟩
      · cases h
    · cases h
  · intro h
    obtain ⟨nodes, hnodes, hns⟩ := h.nodes
    obtain ⟨edges, hedges, hes⟩ := h.edges
    obtain ⟨ns, es, stamp⟩ := s
    cases j with
    | obj fs =>
      simp only [ofJson, hnodes, hedges]
      refine bind_eq_ok.2 ⟨nodes, rfl, bind_eq_ok.2 ⟨ns, mapM_node_eq_ok_iff.2 hns, ?_⟩⟩
      refine bind_eq_ok.2 ⟨edges, rfl, bind_eq_ok.2 ⟨es, mapM_edge_eq_ok_iff.2 hes, ?_⟩⟩
      have hstamp : Stamp.Recorded (Json.fieldOrNull "metadata" (.obj fs)) stamp := h.stamp
      generalize Json.fieldOrNull "metadata" (.obj fs) = v at hstamp
      rcases hstamp with - | hm
      · rfl
      · split
        · obtain ⟨w, hw, -⟩ := hm.builtAt
          nomatch hw
        · rw [Stamp.ofJson_eq_ok_iff.2 hm]
          rfl
    | _ => nomatch Json.kind_eq_obj_of_field? hnodes

/-- A failure for a cause of parsing, or because of a weight that is too large. -/
def IsFailure (j : Json) (f : Failure) : Prop :=
  f.IsParse ∨ f = .breakdown .weightTooLarge ∧ Overweight j

theorem failsBy_ofJson : FailsBy (IsFailure j) (ofJson j) := by
  have hparse : ∀ f : Failure, f.IsParse → IsFailure j f := fun f ↦ .inl
  unfold ofJson
  split
  · split
    · rename_i hnodes hedges
      refine (Record.failsBy_items.mono hparse).bind fun nodes hitems ↦ ?_
      obtain rfl := Record.items_eq_ok_iff.1 hitems
      refine FailsBy.bind ?_ fun ns hns ↦ ?_
      · intro f hf
        obtain ⟨_, r, _, -, -, hr⟩ := exists_of_mapM_eq_error hf
        exact .inl (Node.failsBy_ofJson f hr)
      refine (Record.failsBy_items.mono hparse).bind fun edges hitems' ↦ ?_
      obtain rfl := Record.items_eq_ok_iff.1 hitems'
      refine FailsBy.bind ?_ fun es hes ↦ ?_
      · intro f hf
        obtain ⟨before, r, after, rfl, hbefore, hr⟩ := exists_of_mapM_eq_error hf
        rcases Edge.failsBy_ofJson f hr with hf | ⟨rfl, hover⟩
        · exact .inl hf
        · have hnode := exists_forall₂_iff.1 ⟨ns, mapM_eq_ok_iff.1 hns⟩
          refine .inr ⟨rfl, nodes, before, r, after, hnodes, ?_, hedges, ?_, hover⟩
          · exact fun n hn ↦ Node.exists_ofJson_iff.1 (hnode n hn)
          · exact fun e he ↦ Edge.exists_ofJson_iff.1 (hbefore e he)
      dsimp only
      split
      · exact .ok _
      · refine FailsBy.bind ?_ fun _ _ ↦ .ok _
        exact (Stamp.failsBy_ofJson.mono hparse).map
    · exact (FailsBy.refuse _).mono hparse
  · exact (FailsBy.refuse _).mono hparse

/-- **A weight that is too large breaks the reader down**, and nothing else in a value does. -/
theorem ofJson_eq_breakDown_iff {b : Breakdown} :
    ofJson j = breakDown b ↔ b = .weightTooLarge ∧ Overweight j := by
  constructor
  · intro h
    rcases failsBy_ofJson _ h with ⟨cause, hcause⟩ | ⟨hb, hover⟩
    · cases hcause
    · exact ⟨Failure.breakdown.inj hb, hover⟩
  · rintro ⟨rfl, nodes, before, r, after, hnodes, hnode, hedges, hbefore, hr⟩
    cases j with
    | obj fs =>
      obtain ⟨ns, hns⟩ := exists_forall₂_iff.2 fun n hn ↦ Node.exists_ofJson_iff.2 (hnode n hn)
      have hes : (before ++ r :: after).mapM Edge.ofJson = breakDown .weightTooLarge :=
        mapM_append_cons_eq_error (fun e he ↦ Edge.exists_ofJson_iff.2 (hbefore e he))
          (Edge.ofJson_eq_breakDown_iff.2 ⟨rfl, hr⟩)
      simp only [ofJson, hnodes, hedges]
      refine bind_eq_error.2 (.inr ⟨nodes, rfl, ?_⟩)
      refine bind_eq_error.2 (.inr ⟨ns, mapM_eq_ok_iff.2 hns, ?_⟩)
      exact bind_eq_error.2 (.inr ⟨_, rfl, bind_eq_error.2 (.inl hes)⟩)
    | _ => nomatch Json.kind_eq_obj_of_field? hnodes

end Snapshot

end ConceptAtlas
