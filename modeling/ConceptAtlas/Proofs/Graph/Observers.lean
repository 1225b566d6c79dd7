import Mathlib.Algebra.BigOperators.Group.List.Basic
import ConceptAtlas.Proofs.Graph.Arena

/-!
# What an arena shows

An arena that holds a graph shows that graph: each of its readers gives what the graph's two lists
say. The readers of edges all go the same way. The arcs that they start from are, up to their order,
a selection of the graph's edges with their positions; sorting by keys puts that selection in order
(`Arc.inOrder_eq`); and forgetting keys and positions leaves a selection of the list of edges.

For neighbours the selection comes in two halves, the arcs that leave a node and those that enter it
without leaving it. A loop hangs at both ends under one key, so it is in the first half only
(`joint_perm`).
-/

namespace ConceptAtlas

variable {W : Type}

open Adjacency (Hangs listedAt)

/-! ### Selections of arcs -/

namespace Graph

variable {g : Graph W}

theorem ascending_filterMap_zipIdx {f : Edge W × Nat → Option (Arc W)}
    (hf : ∀ x, ∀ y ∈ f x, y.key = x.2) (es : List (Edge W)) :
    Arc.Ascending (es.zipIdx.filterMap f) := by
  have hpos : es.zipIdx.Pairwise fun x y ↦ x.2 < y.2 := by
    have h := List.pairwise_map.1 (List.zipIdx_map_snd 0 es ▸ List.pairwise_lt_range')
    exact h
  refine List.pairwise_filterMap.2 (hpos.imp fun {x y} hlt a ha b hb ↦ ?_)
  rw [hf x a ha, hf y b hb]
  exact hlt

/-- The arcs at the position of an id: the edges whose `near` end it is, with their positions. -/
def hung (near far : Edge W → String) (g : Graph W) (id : String) : List (Arc W) :=
  g.edges.zipIdx.filterMap fun x ↦
    if near x.1 = id then some ⟨g.place (far x.1), x.2, x.1⟩ else none

theorem ascending_hung (near far : Edge W → String) (g : Graph W) (id : String) :
    Arc.Ascending (g.hung near far id) := by
  refine ascending_filterMap_zipIdx (fun x y hy ↦ ?_) _
  by_cases h : near x.1 = id
  · rw [if_pos h] at hy
    cases hy
    rfl
  · rw [if_neg h] at hy
    nomatch hy

theorem listedAt_arcs {near : Edge W → String} (far : Edge W → String)
    (hnear : ∀ e ∈ g.edges, near e ∈ g.ids) (id : String) :
    listedAt (g.place id) (g.arcs near far) = g.hung near far id := by
  rw [listedAt, arcs, List.filterMap_map, hung]
  refine List.filterMap_congr fun x hx ↦ ?_
  have hiff := place_eq_iff (hnear x.1 (List.fst_mem_of_mem_zipIdx hx)) id
  by_cases h : near x.1 = id <;> simp [hiff, h]

theorem edges_hung (near far : Edge W → String) (g : Graph W) (id : String) :
    (g.hung near far id).map Arc.edge = g.edges.filter (near · == id) := by
  have hfst : g.edges = g.edges.zipIdx.map Prod.fst := (List.zipIdx_map_fst 0 g.edges).symm
  conv_rhs => rw [hfst]
  rw [hung, List.map_filterMap, List.filter_map, ← List.filterMap_eq_filter, List.map_filterMap]
  refine List.filterMap_congr fun x _ ↦ ?_
  by_cases h : near x.1 = id <;> simp [h, Option.guard]

end Graph

namespace Arena.Holds

variable {a : Arena W} {g : Graph W}

/-! ### Nodes -/

theorem ids (h : Holds a g) : a.ids = g.ids := by
  rw [Arena.ids, h.indices, List.zipIdx_map_fst]

theorem filterMap_range_getElem? {α : Type _} (l : List α) :
    (List.range l.length).filterMap (l[·]?) = l := by
  induction l with
  | nil => rfl
  | cons x l ih =>
    rw [List.length_cons, List.range_succ_eq_map, List.filterMap_cons, List.filterMap_map]
    exact congrArg (x :: ·) ih

theorem nodes (h : Holds a g) : a.nodes = g.nodes := by
  have hsnd : a.indices.map Prod.snd = List.range g.nodes.length := by
    rw [h.indices, List.zipIdx_map_snd, g.length_ids, List.range_eq_range']
  have hmap : a.nodes = (a.indices.map Prod.snd).filterMap a.nodeAt? := by
    rw [List.filterMap_map]
    rfl
  calc
    a.nodes = (a.indices.map Prod.snd).filterMap a.nodeAt? := hmap
    _ = (List.range g.nodes.length).filterMap (g.nodes[·]?) := by
      rw [hsnd, show a.nodeAt? = (g.nodes[·]?) from funext h.nodeAt?]
    _ = g.nodes := filterMap_range_getElem? g.nodes

theorem nodeCount (h : Holds a g) : a.nodeCount = g.nodes.length := by
  rw [Arena.nodeCount, h.indices, List.length_zipIdx, g.length_ids]

theorem node? (h : Holds a g) (id : String) : a.node? id = g.node? id := by
  rw [Arena.node?, h.index?, Graph.node?, List.find?_eq_bind_findIdx?_getElem?]
  exact congrArg _ (funext h.nodeAt?)

theorem contains (h : Holds a g) (id : String) : a.contains id = g.contains id := by
  rw [Bool.eq_iff_iff, Graph.contains_iff, Arena.contains, h.index?, g.index?_eq]
  split <;> simp_all

theorem joins (h : Holds a g) (e : Edge W) : a.joins e = g.joins e := by
  rw [Arena.joins, h.contains, h.contains, Graph.joins]

/-- The node at the position of an id has that id. -/
theorem id_nodeAt?_place (h : Holds a g) {id : String} (hid : id ∈ g.ids) :
    (a.nodeAt? (g.place id)).map Node.id = some id := by
  rw [h.nodeAt?, ← List.getElem?_map]
  exact List.getElem?_idxOf hid

/-! ### Edges -/

section Side

variable {adj : Adjacency W} {near far : Edge W → String}

theorem arcsAt_perm (hadj : Hangs adj g.nodes.length (g.arcs near far))
    (hnear : ∀ e ∈ g.edges, near e ∈ g.ids) (id : String) :
    (adj.arcsAt (g.place id)).Perm (g.hung near far id) :=
  Graph.listedAt_arcs far hnear id ▸ hadj.at_index (g.place id)

theorem filter_near_eq_nil (hnear : ∀ e ∈ g.edges, near e ∈ g.ids) {id : String}
    (hid : id ∉ g.ids) : g.edges.filter (near · == id) = [] := by
  refine List.filter_eq_nil_iff.2 fun e he hb ↦ hid ?_
  exact eq_of_beq hb ▸ hnear e he

/-- The edges at one end of a node are those that a filter finds, in their order. -/
theorem edgesAt (h : Holds a g) (hadj : Hangs adj g.nodes.length (g.arcs near far))
    (hnear : ∀ e ∈ g.edges, near e ∈ g.ids) (id : String) :
    a.edgesAt adj id = g.edges.filter (near · == id) := by
  by_cases hid : id ∈ g.ids
  · rw [Arena.edgesAt, h.index?_of_mem hid, ← Graph.edges_hung near far]
    exact congrArg _ (Arc.inOrder_eq (arcsAt_perm hadj hnear id) (g.ascending_hung ..))
  · rw [Arena.edgesAt, h.index?_of_not_mem hid, filter_near_eq_nil hnear hid]

theorem arcCount (h : Holds a g) (hadj : Hangs adj g.nodes.length (g.arcs near far))
    (hnear : ∀ e ∈ g.edges, near e ∈ g.ids) (id : String) :
    a.arcCount adj id = (g.edges.filter (near · == id)).length := by
  by_cases hid : id ∈ g.ids
  · rw [Arena.arcCount, h.index?_of_mem hid, ← Graph.edges_hung near far, List.length_map]
    exact (arcsAt_perm hadj hnear id).length_eq
  · rw [Arena.arcCount, h.index?_of_not_mem hid, filter_near_eq_nil hnear hid]
    rfl

/-- Every edge hangs at one index of either adjacency. -/
theorem length_flatMap_arcsAt (hadj : Hangs adj g.nodes.length (g.arcs near far))
    (hnear : ∀ e ∈ g.edges, near e ∈ g.ids) :
    ((List.range g.nodes.length).flatMap adj.arcsAt).length = g.edges.length := by
  have hlt : ∀ x ∈ g.arcs near far, x.1 < g.nodes.length := by
    intro x hx
    obtain ⟨y, hy, rfl⟩ := List.mem_map.1 hx
    exact Graph.place_lt (hnear y.1 (List.fst_mem_of_mem_zipIdx hy))
  rw [(hadj.flatMap_arcsAt_perm hlt).length_eq]
  simp [Graph.arcs]

end Side

theorem outgoing (h : Holds a g) (id : String) : a.outgoing id = g.outgoing id :=
  h.edgesAt h.leaving (fun _ ↦ Graph.source_mem_ids) id

theorem incoming (h : Holds a g) (id : String) : a.incoming id = g.incoming id :=
  h.edgesAt h.entering (fun _ ↦ Graph.target_mem_ids) id

theorem outDegree (h : Holds a g) (id : String) : a.outDegree id = g.outDegree id :=
  h.arcCount h.leaving (fun _ ↦ Graph.source_mem_ids) id

theorem inDegree (h : Holds a g) (id : String) : a.inDegree id = g.inDegree id :=
  h.arcCount h.entering (fun _ ↦ Graph.target_mem_ids) id

theorem degree (h : Holds a g) (id : String) : a.degree id = g.degree id := by
  rw [Arena.degree, h.inDegree, h.outDegree, Graph.degree]

/-- Each edge is counted at both its ends, so half the count is their number. -/
theorem edgeCount (h : Holds a g) : a.edgeCount = g.edges.length := by
  have hout := length_flatMap_arcsAt h.leaving fun _ ↦ Graph.source_mem_ids
  have hin := length_flatMap_arcsAt h.entering fun _ ↦ Graph.target_mem_ids
  have hslots : (a.slots.map fun s ↦
      (a.leaving.arcsAt s.1).length + (a.entering.arcsAt s.1).length) =
      (List.range g.nodes.length).map fun u ↦
        (a.leaving.arcsAt u).length + (a.entering.arcsAt u).length := by
    rw [← h.slots, List.map_map]
    rfl
  rw [Arena.edgeCount, hslots, ← List.sum_eq_foldr, List.sum_map_add, ← List.length_flatMap,
    ← List.length_flatMap, hout, hin]
  omega

/-- **All arcs, sorted by their keys, are the list of edges.** -/
theorem sortedEdges (h : Holds a g) : a.sortedEdges = g.edges := by
  have hlt : ∀ x ∈ g.arcs Edge.source Edge.target, x.1 < g.nodes.length := by
    intro x hx
    obtain ⟨y, hy, rfl⟩ := List.mem_map.1 hx
    exact Graph.place_lt (Graph.source_mem_ids (List.fst_mem_of_mem_zipIdx hy))
  have hall : (g.arcs Edge.source Edge.target).map Prod.snd =
      g.edges.zipIdx.filterMap fun x ↦ some ⟨g.place x.1.target, x.2, x.1⟩ := by
    rw [Graph.arcs, List.map_map, List.filterMap_eq_map']
    rfl
  have hasc : Arc.Ascending ((g.arcs Edge.source Edge.target).map Prod.snd) := by
    rw [hall]
    refine Graph.ascending_filterMap_zipIdx (fun x y hy ↦ ?_) _
    cases hy
    rfl
  rw [Arena.sortedEdges, h.leaving.arcs_eq,
    Arc.inOrder_eq (h.leaving.flatMap_arcsAt_perm hlt) hasc, Graph.arcs, List.map_map,
    List.map_map]
  exact List.zipIdx_map_fst 0 g.edges

theorem edges (h : Holds a g) : a.edges = g.edges := by
  rw [Arena.edges]
  rcases hc : a.cache with - | es
  · exact h.sortedEdges
  · exact h.cache es hc

end Arena.Holds

/-! ### Neighbours -/

namespace Graph

/-- The edges at a node with their positions, each under the position of its other end. -/
def touching (g : Graph W) (id : String) : List (Arc W) :=
  g.edges.zipIdx.filterMap fun x ↦ (otherEnd? id x.1).map fun o ↦ ⟨g.place o, x.2, x.1⟩

theorem ascending_touching (g : Graph W) (id : String) : Arc.Ascending (g.touching id) := by
  refine ascending_filterMap_zipIdx (fun x y hy ↦ ?_) _
  obtain ⟨o, -, rfl⟩ := Option.map_eq_some_iff.1 hy
  rfl

/-- An edge leaves a node exactly if its position is a key among the arcs that leave it. -/
theorem mem_keys_hung_source {g : Graph W} {x : Edge W × Nat} (id : String)
    (hx : x ∈ g.edges.zipIdx) :
    x.2 ∈ (g.hung Edge.source Edge.target id).map Arc.key ↔ x.1.source = id := by
  constructor
  · intro hm
    obtain ⟨y, hy, hkey⟩ := List.mem_map.1 hm
    obtain ⟨z, hz, hzy⟩ := List.mem_filterMap.1 hy
    by_cases hs : z.1.source = id
    · rw [if_pos hs] at hzy
      cases hzy
      -- Two edges at one position are one edge.
      have hz' := List.mem_zipIdx_iff_getElem?.1 hz
      have hx' := List.mem_zipIdx_iff_getElem?.1 hx
      rw [show z.2 = x.2 from hkey, hx'] at hz'
      rw [Option.some.inj hz']
      exact hs
    · rw [if_neg hs] at hzy
      nomatch hzy
  · intro hs
    exact List.mem_map.2 ⟨_, List.mem_filterMap.2 ⟨x, hx, if_pos hs⟩, rfl⟩

/-- The edges at a node are those that leave it and those that enter it without leaving it. -/
theorem hung_append_perm (g : Graph W) (id : String) :
    (g.hung Edge.source Edge.target id ++
      (g.hung Edge.target Edge.source id).filter fun y ↦
        !((g.hung Edge.source Edge.target id).map Arc.key).contains y.key).Perm
      (g.touching id) := by
  -- Whether an entering edge is kept is asked by its key, and a key is a position: it is kept
  -- unless the edge at that position leaves the node as well.
  have hentering : (g.hung Edge.target Edge.source id).filter (fun y ↦
      !((g.hung Edge.source Edge.target id).map Arc.key).contains y.key) =
      g.edges.zipIdx.filterMap fun x ↦
        if x.1.target = id ∧ x.1.source ≠ id then some ⟨g.place x.1.source, x.2, x.1⟩
        else none := by
    have hkeys := fun x hx ↦ mem_keys_hung_source (g := g) (x := x) id hx
    generalize (g.hung Edge.source Edge.target id).map Arc.key = keys at hkeys
    rw [hung, ← List.filterMap_eq_filter, List.filterMap_filterMap]
    refine List.filterMap_congr fun x hx ↦ ?_
    have hiff := hkeys x hx
    by_cases ht : x.1.target = id <;> by_cases hs : x.1.source = id <;>
      simp [Option.guard, ht, hs, hiff]
  rw [hentering]
  refine (filterMap_append_perm _ fun x _ ↦ ?_).trans (.of_eq ?_)
  · by_cases hs : x.1.source = id
    · exact .inr (if_neg fun h ↦ h.2 hs)
    · exact .inl (if_neg hs)
  · refine List.filterMap_congr fun x _ ↦ ?_
    by_cases hs : x.1.source = id <;> by_cases ht : x.1.target = id <;>
      simp [otherEnd?, hs, ht]

end Graph

namespace Arena

/-- What joining both groups of an index keeps: all arcs that leave it, and of those that enter it
the ones under other keys. -/
theorem joint_eq {a : Arena W} {u : Nat} (hl : ((a.leaving.arcsAt u).map Arc.key).Nodup)
    (he : ((a.entering.arcsAt u).map Arc.key).Nodup) :
    a.joint u = a.leaving.arcsAt u ++
      (a.entering.arcsAt u).filter fun y ↦
        !((a.leaving.arcsAt u).map Arc.key).contains y.key := by
  have hkeys (arcs : List (Arc W)) :
      (arcs.map fun x ↦ (x.key, x)).map Prod.fst = arcs.map Arc.key := by
    rw [List.map_map]
    rfl
  have hout : (a.leaving.arcsAt u).foldl (fun ps x ↦ Assoc.put x.key x ps) [] =
      (a.leaving.arcsAt u).map fun x ↦ (x.key, x) := by
    have h := Assoc.ofPairs_of_nodup ((hkeys _).symm ▸ hl)
    rw [Assoc.ofPairs, Assoc.ofPairsBy, List.foldl_map] at h
    exact h
  have hin (ps : List (Nat × Arc W)) :
      (a.entering.arcsAt u).foldl (fun ps x ↦ Assoc.putNew x.key x ps) ps =
        ps ++ ((a.entering.arcsAt u).filter fun y ↦ !(ps.map Prod.fst).contains y.key).map
          fun x ↦ (x.key, x) := by
    have h := Assoc.foldl_putNew_of_nodup ((hkeys _).symm ▸ he) ps
    rw [List.foldl_map, List.filter_map] at h
    exact h
  rw [joint, hout, hin, hkeys, List.map_append, List.map_map, List.map_map]
  exact congrArg₂ _ (List.map_id _) (List.map_id _)

namespace Holds

variable {a : Arena W} {g : Graph W}

/-- **A loop is joined once**: the arcs at both sides of a node are the edges at the node. -/
theorem joint_perm (h : Holds a g) (id : String) :
    (a.joint (g.place id)).Perm (g.touching id) := by
  have hl := arcsAt_perm h.leaving (fun _ ↦ Graph.source_mem_ids) id
  have he := arcsAt_perm h.entering (fun _ ↦ Graph.target_mem_ids) id
  have hcontains (k : Nat) : ((a.leaving.arcsAt (g.place id)).map Arc.key).contains k =
      ((g.hung Edge.source Edge.target id).map Arc.key).contains k := by
    rw [Bool.eq_iff_iff, List.contains_iff_mem, List.contains_iff_mem]
    exact (hl.map _).mem_iff
  rw [joint_eq ((hl.map _).nodup_iff.2 (g.ascending_hung ..).nodup_keys)
    ((he.map _).nodup_iff.2 (g.ascending_hung ..).nodup_keys)]
  simp only [hcontains]
  exact (hl.append (he.filter _)).trans (g.hung_append_perm id)

theorem neighbors (h : Holds a g) (id : String) : a.neighbors id = g.neighbors id := by
  by_cases hid : id ∈ g.ids
  · have hfst : g.edges = g.edges.zipIdx.map Prod.fst := (List.zipIdx_map_fst 0 g.edges).symm
    rw [Arena.neighbors, h.index?_of_mem hid, Graph.neighbors]
    -- Both sides select from the edges with their positions now, one edge at a time.
    conv_rhs => rw [hfst]
    simp only [Arc.inOrder_eq (h.joint_perm id) (g.ascending_touching id), Graph.touching,
      List.filterMap_filterMap, List.filterMap_map]
    refine List.filterMap_congr fun x hx ↦ ?_
    have he : x.1 ∈ g.edges := List.fst_mem_of_mem_zipIdx hx
    rcases ho : Graph.otherEnd? id x.1 with - | o
    · simp [ho]
    · have hmem : o ∈ g.ids := by
        simp only [Graph.otherEnd?] at ho
        split at ho
        · exact Option.some.inj ho ▸ Graph.target_mem_ids he
        · split at ho
          · exact Option.some.inj ho ▸ Graph.source_mem_ids he
          · nomatch ho
      obtain ⟨n, hn, rfl⟩ := Option.map_eq_some_iff.1 (h.id_nodeAt?_place hmem)
      simp [ho, hn]
  · rw [Arena.neighbors, h.index?_of_not_mem hid, Graph.neighbors, eq_comm]
    refine List.filterMap_eq_nil_iff.2 fun e he ↦ ?_
    have hs : ¬ e.source = id := fun hs ↦ hid (hs ▸ Graph.source_mem_ids he)
    have ht : ¬ e.target = id := fun ht ↦ hid (ht ▸ Graph.target_mem_ids he)
    simp [Graph.otherEnd?, hs, ht]

/-! ### The graph of an arena -/

theorem graph (h : Holds a g) : a.graph = g := by
  rw [Arena.graph, h.nodes, h.edges, Graph.ofRecords_self]

theorem addNodes (h : Holds a g) (ns : List Node) :
    Holds (a.addNodes ns) (ns.foldl Graph.addNode g) := by
  induction ns generalizing a g with
  | nil => exact h
  | cons n ns ih => exact ih (h.addNode n)

theorem offerEdge (h : Holds a g) (e : Edge W) : Holds (a.offerEdge e) (g.offerEdge e) := by
  rw [Arena.offerEdge, h.joins]
  split
  · exact h.addEdge e
  · rename_i hj
    have hkeep : g.offerEdge e = g :=
      Graph.ext (Graph.nodes_offerEdge g e) ((Graph.edges_offerEdge g e).trans (if_neg hj))
    rw [hkeep]
    exact h

theorem foldl_offerEdge (h : Holds a g) (es : List (Edge W)) :
    Holds (es.foldl Arena.offerEdge a) (es.foldl Graph.offerEdge g) := by
  induction es generalizing a g with
  | nil => exact h
  | cons e es ih => exact ih (h.offerEdge e)

/-- Records make the same graph, whether they go through an arena or not. -/
theorem ofRecords (ns : List Node) (es : List (Edge W)) :
    Holds (Arena.ofRecords ns es) (Graph.ofRecords ns es) :=
  (Holds.empty.addNodes ns).foldl_offerEdge es

end Holds

end Arena

end ConceptAtlas
