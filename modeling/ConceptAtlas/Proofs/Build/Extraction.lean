import ConceptAtlas.Build.Extractor
import ConceptAtlas.Proofs.Json.RoundTrip

/-!
# What a card gives

An extractor goes through four steps for a card, and what comes of the card is what comes of all of
them: it fails as the first step that does, and the records of the steps before are lost
(`Build.Extractor.ofCard_eq_error_iff`).

A file that gives something is the text of a card whose front matter spells a concept and its
references, and what it gives is the node of the one and the edges of the other
(`Build.exists_concept_of_extract`).

Nodes and edges of cards are modest: all metadata there is is a description, and every edge weighs
one. That is why the snapshot of a graph from cards always reads back, whatever the cards say.
-/

namespace ConceptAtlas

theorem Json.readsBack_one : ReadsBack none 1 := by
  have htext : floatText 1 = "1.0".toList := by decide +kernel
  have hvalue : Decimal.ofDecimal false 10 (-1) = 1 := by decide +kernel
  rw [ReadsBack, pretty, render, htext, String.ofList_toList]
  exact congrArg (fun x ↦ Except.ok (Json.float x)) hvalue

@[simp]
theorem Concept.id_node (c : Concept) : c.node.id = c.id := by
  simp only [node]
  split <;> split <;> rfl

/-- A node from a card has no metadata but its description. -/
theorem Concept.metadata_node (c : Concept) :
    c.node.metadata = [] ∨ ∃ text, c.node.metadata = [("description", .str text)] := by
  simp only [node]
  split
  · rename_i text _
    refine .inr ⟨text, ?_⟩
    split <;> rfl
  · refine .inl ?_
    split <;> rfl

/-- An edge from a card weighs one. -/
theorem References.weight_of_mem_edges {id : String} {r : References} {e : Edge Float}
    (h : e ∈ r.edges id) : e.weight = 1 := by
  simp only [edges, List.mem_append, List.mem_map] at h
  rcases h with (⟨_, _, rfl⟩ | ⟨_, _, rfl⟩) | ⟨_, _, rfl⟩ <;> rfl

namespace Build

/-! ### The steps for a card -/

namespace Extractor

variable {e : Extractor} {base path : Path} {card : Card} {x : Extract} {failure : Failure}

/-- A card gives something if all the steps for it come to something. -/
theorem ofCard_eq_ok_iff : e.ofCard base path card = .ok x ↔
    ∃ nodeData edgeData, e.nodeData base path card = .ok nodeData ∧
      e.node nodeData = .ok x.node ∧ e.edgeData card = .ok edgeData ∧
      match edgeData with
      | none => x.edges = []
      | some data => e.edges x.node.id data = .ok x.edges := by
  obtain ⟨node, edges⟩ := x
  simp only [ofCard, bind_eq_ok]
  constructor
  · rintro ⟨nodeData, hnodeData, n, hnode, edgeData, hedgeData, h⟩
    cases edgeData with
    | none =>
      cases h
      exact ⟨nodeData, none, hnodeData, hnode, hedgeData, rfl⟩
    | some data =>
      obtain ⟨es, hes, h⟩ := bind_eq_ok.1 h
      cases h
      exact ⟨nodeData, some data, hnodeData, hnode, hedgeData, hes⟩
  · rintro ⟨nodeData, edgeData, hnodeData, hnode, hedgeData, h⟩
    refine ⟨nodeData, hnodeData, node, hnode, edgeData, hedgeData, ?_⟩
    cases edgeData with
    | none =>
      obtain rfl : edges = [] := h
      rfl
    | some data => exact bind_eq_ok.2 ⟨edges, h, rfl⟩

/-- **A step that fails fails the card**, with its own failure, if the steps before it do not. -/
theorem ofCard_eq_error_iff : e.ofCard base path card = .error failure ↔
    e.nodeData base path card = .error failure ∨
      ∃ nodeData, e.nodeData base path card = .ok nodeData ∧
        (e.node nodeData = .error failure ∨ ∃ node, e.node nodeData = .ok node ∧
          (e.edgeData card = .error failure ∨
            ∃ data, e.edgeData card = .ok (some data) ∧
              e.edges node.id data = .error failure)) := by
  simp only [ofCard, bind_eq_error]
  refine or_congr_right (exists_congr fun nodeData ↦ and_congr_right fun _ ↦ ?_)
  refine or_congr_right (exists_congr fun node ↦ and_congr_right fun _ ↦ ?_)
  refine or_congr_right ⟨?_, ?_⟩
  · rintro ⟨- | data, hdata, h⟩
    · cases h
    · rcases bind_eq_error.1 h with h | ⟨_, -, h⟩
      · exact ⟨data, hdata, h⟩
      · cases h
  · rintro ⟨data, hdata, h⟩
    exact ⟨some data, hdata, bind_eq_error.2 (.inl h)⟩

/-- A file fails as a whole if its text or its card does, or a step for the card. -/
theorem extract_eq_error_iff {d : Disk} : e.extract d base path = .error failure ↔
    (d.text path).mapError Failure.fault = .error failure ∨
      ∃ text, d.text path = .ok text ∧ (Card.ofText Yaml.parse text = .error failure ∨
        ∃ card, Card.ofText Yaml.parse text = .ok card ∧
          e.ofCard base path card = .error failure) := by
  simp only [extract, bind_eq_error, mapError_eq_ok]

end Extractor

/-! ### Cards that are concepts -/

/-- **What a file gives** is what its front matter says of a concept and its references. -/
theorem exists_concept_of_extract {d : Disk} {base path : Path} {x : Extract}
    (h : Extractor.concepts.extract d base path = .ok x) :
    ∃ text card c refs, d.text path = .ok text ∧ Card.ofText Yaml.parse text = .ok card ∧
      Concept.ofFront path card.front = .ok c ∧ References.ofFront card.front = .ok refs ∧
      x.node = c.node ∧ x.edges = refs.edges c.id := by
  obtain ⟨text, htext, h⟩ := bind_eq_ok.1 h
  obtain ⟨card, hcard, h⟩ := bind_eq_ok.1 h
  obtain ⟨c, data, hc, hnode, hdata, hedges⟩ := Extractor.ofCard_eq_ok_iff.1 h
  obtain ⟨refs, hrefs, hdata⟩ := bind_eq_ok.1 hdata
  have hnode : x.node = c.node := (Except.ok.inj hnode).symm
  refine ⟨text, card, c, refs, mapError_eq_ok.1 htext, hcard, hc, hrefs, hnode, ?_⟩
  by_cases hempty : refs.isEmpty = true
  · rw [if_pos hempty] at hdata
    cases hdata
    exact hedges.trans (References.edges_eq_nil_iff.2 hempty).symm
  · rw [if_neg hempty] at hdata
    cases hdata
    rw [← Concept.id_node c, ← hnode]
    exact (Except.ok.inj hedges).symm

/-- What a snapshot records of what a file gave can be read back. -/
theorem legible_of_extract {d : Disk} {base path : Path} {x : Extract}
    (h : Extractor.concepts.extract d base path = .ok x) :
    Json.Legible none (.obj x.node.metadata) ∧
      ∀ e ∈ x.edges, Json.Legible none (.float e.weight) := by
  obtain ⟨-, -, c, refs, -, -, -, -, hnode, hedges⟩ := exists_concept_of_extract h
  rw [hnode, hedges]
  refine ⟨?_, fun e he ↦ ?_⟩
  · rcases c.metadata_node with hmetadata | ⟨text, hmetadata⟩
    · rw [hmetadata]
      exact ⟨List.nodup_nil, trivial⟩
    · rw [hmetadata]
      exact ⟨by simp, trivial, trivial⟩
  · rw [References.weight_of_mem_edges he]
    exact fun _ ↦ Json.readsBack_one

end Build

end ConceptAtlas
