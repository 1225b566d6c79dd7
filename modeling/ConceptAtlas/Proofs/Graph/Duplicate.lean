import Mathlib.Data.List.Nodup
import Mathlib.Data.List.Perm.Subperm
import ConceptAtlas.Proofs.Graph.Validation

/-!
# What counts as a duplicate

A validation lists the edges that repeat an earlier one, each once and in the order of edges, and
warns exactly if there is one. What makes one edge repeat another is a matter of its own: here it is
a parameter of what is said about the report (`Graph.ListsRepeats`), and the report that is given
is the one for equal labels (`Graph.duplicates_by_label`).

An edge with the same ends and the same relationship has the same label, but not the other way
round: a custom relationship may bear the label of a named one (`Relationship.label_eq_iff`), and an
edge with one of them is listed as a duplicate of an edge with the other. So the report is the one
for equal relationships exactly if no edge repeats only such a namesake, and it is where every
relationship is the one that its label names.

A pass keeps the keys of the edges that it has seen, and these answer the question for the next edge
(`Graph.DuplicateScan.Holds`).
-/

namespace ConceptAtlas

/-! ### Labels -/

namespace Relationship

variable {r s : Relationship}

theorem eq_custom_of_isCustom (h : r.isCustom = true) : r = .custom r.label := by
  cases r with
  | custom => rfl
  | _ => nomatch h

/-- Two relationships with one label are the same, or one is custom and bears the label of the
other. -/
theorem label_eq_iff : r.label = s.label ↔ r = s ∨ s = .custom r.label ∨ r = .custom s.label := by
  constructor
  · intro h
    by_cases hr : r.isCustom = true
    · exact .inr (.inr (h ▸ eq_custom_of_isCustom hr))
    · by_cases hs : s.isCustom = true
      · exact .inr (.inl (h ▸ eq_custom_of_isCustom hs))
      · refine .inl ?_
        rw [← ofLabel_label (Bool.eq_false_iff.2 hr), h, ofLabel_label (Bool.eq_false_iff.2 hs)]
  · rintro (rfl | rfl | rfl)
    · rfl
    · rfl
    · rfl

end Relationship

namespace Graph

variable {W : Type} {g : Graph W} {es : List (Edge W)} {d e : Edge W} {i : Nat}
  {same : Edge W → Edge W → Prop}

/-! ### What repeats what -/

/-- Two edges have the same ends and the same relationship. -/
def SameTriple (d e : Edge W) : Prop :=
  d.source = e.source ∧ d.target = e.target ∧ d.relationship = e.relationship

/-- Two edges have the same ends and relationships with the same label. -/
def SameLabel (d e : Edge W) : Prop :=
  d.source = e.source ∧ d.target = e.target ∧ d.relationship.label = e.relationship.label

theorem SameTriple.sameLabel (h : SameTriple d e) : SameLabel d e :=
  ⟨h.1, h.2.1, congrArg Relationship.label h.2.2⟩

theorem sameLabel_iff_edgeKey_eq : SameLabel d e ↔ edgeKey d = edgeKey e := by
  simp only [SameLabel, edgeKey, Prod.mk.injEq]

/-- The edge at a position repeats an earlier one. -/
def Repeats (same : Edge W → Edge W → Prop) (es : List (Edge W)) (i : Nat) : Prop :=
  ∃ e, es[i]? = some e ∧ ∃ j < i, ∃ d, es[j]? = some d ∧ same d e

theorem Repeats.lt_length (h : Repeats same es i) : i < es.length := by
  obtain ⟨e, he, -⟩ := h
  exact (List.getElem?_eq_some_iff.1 he).1

theorem Repeats.sameLabel (h : Repeats SameTriple es i) : Repeats SameLabel es i := by
  obtain ⟨e, he, j, hj, d, hd, hsame⟩ := h
  exact ⟨e, he, j, hj, d, hd, hsame.sameLabel⟩

/-- One more edge repeats none but those before it. -/
theorem repeats_concat : Repeats same (es ++ [e]) i ↔
    Repeats same es i ∨ i = es.length ∧ ∃ d ∈ es, same d e := by
  constructor
  · rintro ⟨x, hx, j, hj, d, hd, hsame⟩
    have hi := (List.getElem?_eq_some_iff.1 hx).1
    rw [List.length_append, List.length_singleton] at hi
    rw [List.getElem?_append_left (Nat.lt_of_lt_of_le hj (Nat.le_of_lt_succ hi))] at hd
    rcases Nat.lt_or_eq_of_le (Nat.le_of_lt_succ hi) with hlt | rfl
    · rw [List.getElem?_append_left hlt] at hx
      exact .inl ⟨x, hx, j, hj, d, hd, hsame⟩
    · rw [List.getElem?_concat_length] at hx
      obtain rfl := Option.some.inj hx
      exact .inr ⟨rfl, d, List.mem_of_getElem? hd, hsame⟩
  · rintro (⟨x, hx, j, hj, d, hd, hsame⟩ | ⟨rfl, d, hd, hsame⟩)
    · have hi := (List.getElem?_eq_some_iff.1 hx).1
      refine ⟨x, ?_, j, hj, d, ?_, hsame⟩
      · rw [List.getElem?_append_left hi, hx]
      · rw [List.getElem?_append_left (hj.trans hi), hd]
    · obtain ⟨j, hj, hjd⟩ := List.getElem_of_mem hd
      refine ⟨e, List.getElem?_concat_length, j, hj, d, ?_, hsame⟩
      rw [List.getElem?_append_left hj, List.getElem?_eq_getElem hj, hjd]

/-! ### The pass over edges -/

namespace DuplicateScan

/-- What a pass over edges has: their keys, and by their positions those that repeat an earlier
one. -/
structure Holds (es : List (Edge W)) (s : DuplicateScan W) : Prop where
  seen : ∀ k, k ∈ s.seen ↔ ∃ d ∈ es, edgeKey d = k
  repeated : ∃ is : List Nat, is.Pairwise (· < ·) ∧ (∀ i, i ∈ is ↔ Repeats SameLabel es i) ∧
    s.repeated = is.filterMap (es[·]?)

theorem Holds.add {s : DuplicateScan W} (h : Holds es s) (e : Edge W) :
    Holds (es ++ [e]) (s.add e) := by
  obtain ⟨is, hascending, hmem, hrepeated⟩ := h.repeated
  have hkeep : is.filterMap ((es ++ [e])[·]?) = is.filterMap (es[·]?) :=
    List.filterMap_congr fun i hi ↦ List.getElem?_append_left ((hmem i).1 hi).lt_length
  have hkeys : ∀ k, (∃ d ∈ es ++ [e], edgeKey d = k) ↔ k ∈ s.seen ∨ edgeKey e = k := fun k ↦ by
    simp only [h.seen, List.mem_append, List.mem_singleton, or_and_right, exists_or,
      exists_eq_left]
  have hold : edgeKey e ∈ s.seen ↔ ∃ d ∈ es, SameLabel d e := by
    simp only [h.seen, sameLabel_iff_edgeKey_eq]
  rw [DuplicateScan.add]
  split
  · rename_i hseen
    have hkey : edgeKey e ∈ s.seen := List.contains_iff_mem.1 hseen
    exact {
      seen := fun k ↦ by
        rw [hkeys]
        exact (or_iff_left_of_imp fun hk ↦ hk ▸ hkey).symm
      repeated := by
        refine ⟨is ++ [es.length], ?_, fun i ↦ ?_, ?_⟩
        · refine List.pairwise_append.2
            ⟨hascending, List.pairwise_singleton _ _, fun i hi j hj ↦ ?_⟩
          rw [List.mem_singleton.1 hj]
          exact ((hmem i).1 hi).lt_length
        · rw [List.mem_append, List.mem_singleton, hmem, repeats_concat,
            and_iff_left (hold.1 hkey)]
        · have hlast : [es.length].filterMap ((es ++ [e])[·]?) = [e] := by
            rw [List.filterMap_cons_some List.getElem?_concat_length, List.filterMap_nil]
          rw [List.filterMap_append, hkeep, hlast, hrepeated] }
  · rename_i hnew
    have hfirst : ¬ ∃ d ∈ es, SameLabel d e := fun hd ↦ hnew (List.contains_iff_mem.2 (hold.2 hd))
    exact {
      seen := fun k ↦ by
        rw [hkeys, List.mem_append, List.mem_singleton, eq_comm]
      repeated := by
        refine ⟨is, hascending, fun i ↦ ?_, hrepeated.trans hkeep.symm⟩
        rw [hmem, repeats_concat]
        exact (or_iff_left fun hi ↦ hfirst hi.2).symm }

theorem holds_foldl (es : List (Edge W)) : Holds es (es.foldl DuplicateScan.add ⟨[], []⟩) := by
  induction es using List.reverseRecOn with
  | nil => exact ⟨by simp, [], List.Pairwise.nil, by simp [Repeats], rfl⟩
  | append_singleton es e ih =>
    rw [List.foldl_concat]
    exact ih.add e

end DuplicateScan

/-- One more edge is a duplicate if its key was there. -/
theorem duplicates_eq_of_edges_eq_concat {h : Graph W} (hedges : h.edges = g.edges ++ [e]) :
    h.duplicates =
      g.duplicates ++ if edgeKey e ∈ g.edges.map edgeKey then [e] else [] := by
  have hseen := (DuplicateScan.holds_foldl g.edges).seen (edgeKey e)
  rw [← List.mem_map] at hseen
  rw [duplicates, hedges, List.foldl_concat, DuplicateScan.add, duplicates]
  by_cases hkey : edgeKey e ∈ g.edges.map edgeKey
  · rw [if_pos (List.contains_iff_mem.2 (hseen.2 hkey)), if_pos hkey]
  · rw [if_neg (mt List.contains_iff_mem.1 (mt hseen.1 hkey)), if_neg hkey, List.append_nil]

/-! ### The report -/

/-- The warning about edges that repeat earlier ones. -/
def duplicateWarning (es : List (Edge W)) : Finding :=
  ⟨.duplicateEdges, s!"{es.length} duplicate edge(s) found", [], es.map describeDuplicate⟩

/-- A report lists the edges that repeat an earlier one, where `same` says which edges repeat each
other: there is a warning exactly if there are any, and it lists each of them once, in the order of
edges. -/
def ListsRepeats (same : Edge W → Edge W → Prop) (g : Graph W) (r : Report) : Prop :=
  ∃ is : List Nat, is.Pairwise (· < ·) ∧ (∀ i, i ∈ is ↔ Repeats same g.edges i) ∧
    (duplicateWarning (is.filterMap (g.edges[·]?))).ReportedIf (∃ i, Repeats same g.edges i)
      r.warnings

theorem duplicateFinding?_eq_ite (g : Graph W) : g.duplicateFinding? =
    if g.duplicates ≠ [] then some (duplicateWarning g.duplicates) else none := by
  have hnil : ([] : List String) = [] ∧ g.duplicates.map describeDuplicate = [] ↔
      ¬ g.duplicates ≠ [] := by
    rw [eq_self, true_and, not_not, List.map_eq_nil_iff]
  rw [duplicateFinding?, finding?_eq_ite _ hnil, List.length_nil, Nat.zero_add, List.length_map]
  rfl

theorem reportedIf_duplicateWarning (g : Graph W) (withSummary : Bool) :
    (duplicateWarning g.duplicates).ReportedIf (g.duplicates ≠ [])
      (g.validate withSummary).warnings := by
  have hcodes : ∀ f ∈ g.orphanFinding?.toList, f.code ≠ .duplicateEdges := fun f hf ↦
    ne_of_eq_of_ne (code_of_mem_finding? hf) (by decide)
  have hwarnings : (g.validate withSummary).warnings =
      g.orphanFinding?.toList ++ g.duplicateFinding?.toList ++ [] := (List.append_nil _).symm
  rw [hwarnings]
  exact .of_toList (fun h ↦ g.duplicateFinding?_eq_ite.trans (if_pos h))
    (fun h ↦ g.duplicateFinding?_eq_ite.trans (if_neg h)) hcodes (List.forall_mem_nil _)

theorem length_filterMap_getElem? {is : List Nat} (h : ∀ i ∈ is, i < es.length) :
    (is.filterMap (es[·]?)).length = is.length := by
  rw [List.filterMap_length_eq_length]
  exact fun i hi ↦ Option.isSome_iff_exists.2 ⟨_, List.getElem?_eq_getElem (h i hi)⟩

/-- The report is the one for equal labels. -/
theorem listsRepeats_validate (g : Graph W) (withSummary : Bool) :
    g.ListsRepeats SameLabel (g.validate withSummary) := by
  obtain ⟨is, hascending, hmem, hrepeated⟩ := (DuplicateScan.holds_foldl g.edges).repeated
  have hduplicates : g.duplicates = is.filterMap (g.edges[·]?) := hrepeated
  have hlength : g.duplicates.length = is.length := by
    rw [hduplicates, length_filterMap_getElem? fun i hi ↦ ((hmem i).1 hi).lt_length]
  have hsome : (∃ i, Repeats SameLabel g.edges i) ↔ g.duplicates ≠ [] := by
    rw [← List.length_pos_iff, hlength, List.length_pos_iff_exists_mem]
    exact exists_congr fun i ↦ (hmem i).symm
  refine ⟨is, hascending, hmem, ?_⟩
  rw [← hduplicates, hsome]
  exact g.reportedIf_duplicateWarning withSummary

/-- It is the positions of repeating edges that matter. -/
theorem ListsRepeats.congr {same' : Edge W → Edge W → Prop} {r : Report}
    (h : g.ListsRepeats same r) (hiff : ∀ i, Repeats same g.edges i ↔ Repeats same' g.edges i) :
    g.ListsRepeats same' r := by
  have hrepeats : Repeats same g.edges = Repeats same' g.edges := funext fun i ↦ propext (hiff i)
  rwa [ListsRepeats, hrepeats] at h

/-- A report lists what repeats what for one notion only, of two that are comparable. -/
theorem ListsRepeats.of_imp {same' : Edge W → Edge W → Prop} {r : Report}
    (h : g.ListsRepeats same r) (h' : g.ListsRepeats same' r)
    (hsub : ∀ i, Repeats same g.edges i → Repeats same' g.edges i) (hi : Repeats same' g.edges i) :
    Repeats same g.edges i := by
  obtain ⟨is, hascending, hmem, hreported⟩ := h
  obtain ⟨is', hascending', hmem', hreported'⟩ := h'
  have hsome : ∃ i, Repeats same g.edges i :=
    hreported.exists_code_iff.1 (hreported'.exists_code_iff.2 ⟨i, hi⟩)
  have hone : [duplicateWarning (is.filterMap (g.edges[·]?))] =
      [duplicateWarning (is'.filterMap (g.edges[·]?))] :=
    (hreported.1 hsome).symm.trans (hreported'.1 ⟨i, hi⟩)
  have hlength : is.length = is'.length := by
    have hedges := congrArg (fun f : Finding ↦ f.edges.length) (List.singleton_inj.1 hone)
    simp only [duplicateWarning, List.length_map] at hedges
    rwa [length_filterMap_getElem? fun i hi ↦ ((hmem i).1 hi).lt_length,
      length_filterMap_getElem? fun i hi ↦ ((hmem' i).1 hi).lt_length] at hedges
  have hsubset : is ⊆ is' := fun i hi ↦ (hmem' i).2 (hsub i ((hmem i).1 hi))
  have hnodup : is.Nodup := hascending.imp Nat.ne_of_lt
  have hperm : is.Perm is' :=
    (hnodup.subperm hsubset).perm_of_length_le hlength.ge
  exact (hmem i).1 (hperm.mem_iff.2 ((hmem' i).2 hi))

/-- **The report is the one for equal labels**, of any graph. It is the one for equal relationships
exactly if every edge that repeats the label of an earlier one repeats a relationship; and what has
the label without being the relationship is a custom relationship beside its namesake. -/
theorem duplicates_by_label (g : Graph W) (withSummary : Bool) :
    g.ListsRepeats SameLabel (g.validate withSummary) ∧
      (g.ListsRepeats SameTriple (g.validate withSummary) ↔
        ∀ i, Repeats SameLabel g.edges i → Repeats SameTriple g.edges i) ∧
      ∀ d e : Edge W, SameLabel d e ↔ SameTriple d e ∨
        d.source = e.source ∧ d.target = e.target ∧
          (e.relationship = .custom d.relationship.label ∨
            d.relationship = .custom e.relationship.label) := by
  have hlists := g.listsRepeats_validate withSummary
  refine ⟨hlists, ⟨fun h i ↦ h.of_imp hlists fun _ ↦ Repeats.sameLabel, fun h ↦ ?_⟩, fun d e ↦ ?_⟩
  · exact hlists.congr fun i ↦ ⟨h i, Repeats.sameLabel⟩
  · rw [SameLabel, SameTriple, Relationship.label_eq_iff, and_or_left, and_or_left]

/-- Two edges between the same concepts, a prerequisite and a custom one labelled like it. -/
def namesakes : Graph Unit where
  nodes := [.plain "a" "A", .plain "b" "B"]
  edges := [⟨"a", "b", .prerequisite, (), .manual⟩,
    ⟨"a", "b", .custom "prerequisite", (), .manual⟩]
  nodup_ids := by decide
  source_mem := by decide
  target_mem := by decide

/-- Both relationships can be read from a snapshot, no edge repeats another, and the report has a
duplicate. -/
theorem duplicates_namesakes :
    Relationship.ofJson (.str "Prerequisite") = .ok .prerequisite ∧
      Relationship.ofJson (.obj [("Custom", .str "prerequisite")]) =
        .ok (.custom "prerequisite") ∧
      (¬ ∃ i, Repeats SameTriple namesakes.edges i) ∧
      (namesakes.validate true).warnings =
        [⟨.duplicateEdges, "1 duplicate edge(s) found", [], ["a -[prerequisite]-> b"]⟩] ∧
      ¬ namesakes.ListsRepeats SameTriple (namesakes.validate true) := by
  have hwarnings : (namesakes.validate true).warnings =
      [⟨.duplicateEdges, "1 duplicate edge(s) found", [], ["a -[prerequisite]-> b"]⟩] := by
    decide +kernel
  have hnone : ¬ ∃ i, Repeats SameTriple namesakes.edges i := by
    rintro ⟨i, hi⟩
    obtain ⟨e, he, j, hj, d, hd, -, -, hsame⟩ := hi
    match i, j, hj with
    | 1, 0, _ =>
      obtain rfl := Option.some.inj he
      obtain rfl := Option.some.inj hd
      nomatch hsame
    | i + 2, _, _ => nomatch he
  have hlabel : Text.toLower "Custom" = "custom" := by decide +kernel
  have hcustom : Relationship.ofJson (.obj [("Custom", .str "prerequisite")]) =
      .ok (.custom "prerequisite") := if_pos hlabel
  refine ⟨rfl, hcustom, hnone, hwarnings, ?_⟩
  rintro ⟨is, -, -, hreported⟩
  rw [hwarnings] at hreported
  exact hreported.2 hnone _ (List.mem_singleton_self _) rfl

end Graph

end ConceptAtlas
