import ConceptAtlas.Proofs.Graph.Adjacency
import ConceptAtlas.Proofs.Graph.Building

/-!
# What an arena holds

`Arena.Holds a g` is the invariant that keeps an arena in step with a graph: the ids have their
positions as indices, each slot has the node at its position, both adjacencies hang the edges of the
graph under their positions as keys, the two counters are the lengths, and the cache, if it is
filled, is the list of edges.

Each way to change an arena keeps it (`Holds.addNode`, `Holds.addEdge`, `Holds.readEdges`). An edge
with a missing end changes neither side, and a node under an old id changes no position, so neither
of them touches an arc.
-/

namespace ConceptAtlas

variable {W : Type}

/-! ### Positions in a graph -/

namespace Graph

/-- A node under an old id takes the position of that id; every other position keeps its node. -/
theorem getElem?_upsert_of_mem {n : Node} {ns : List Node} (h : n.id ∈ ns.map Node.id) (i : Nat) :
    (upsert n ns)[i]? = if (ns.map Node.id).idxOf n.id = i then some n else ns[i]? := by
  induction ns generalizing i with
  | nil => simp at h
  | cons m ms ih =>
    rw [upsert, List.map_cons, List.idxOf_cons]
    by_cases hm : m.id = n.id
    · rw [if_pos hm, beq_iff_eq.2 hm, cond_true]
      cases i <;> simp
    · have hms : n.id ∈ ms.map Node.id := (List.mem_cons.1 h).resolve_left fun e ↦ hm e.symm
      rw [if_neg hm, beq_eq_false_iff_ne.2 hm, cond_false]
      cases i with
      | zero => simp
      | succ i => simp [ih hms]

theorem ids_addNode_of_mem {g : Graph W} {n : Node} (h : n.id ∈ g.ids) :
    (g.addNode n).ids = g.ids :=
  (map_id_upsert n g.nodes).trans (if_pos h)

theorem ids_addNode_of_not_mem {g : Graph W} {n : Node} (h : n.id ∉ g.ids) :
    (g.addNode n).ids = g.ids ++ [n.id] :=
  (map_id_upsert n g.nodes).trans (if_neg h)

theorem length_ids (g : Graph W) : g.ids.length = g.nodes.length := List.length_map _

theorem source_mem_ids {g : Graph W} {e : Edge W} (h : e ∈ g.edges) : e.source ∈ g.ids :=
  g.source_mem e h

theorem target_mem_ids {g : Graph W} {e : Edge W} (h : e ∈ g.edges) : e.target ∈ g.ids :=
  g.target_mem e h

/-- The position of an id among the ids. -/
def place (g : Graph W) (id : String) : Nat := g.ids.idxOf id

theorem place_lt {g : Graph W} {id : String} (h : id ∈ g.ids) : g.place id < g.nodes.length :=
  g.length_ids ▸ List.idxOf_lt_length_of_mem h

/-- No two ids have one position. -/
theorem place_eq_iff {g : Graph W} {id : String} (h : id ∈ g.ids) (other : String) :
    g.place id = g.place other ↔ id = other := List.idxOf_inj h

theorem index?_eq_idxOf? (g : Graph W) (id : String) : g.index? id = g.ids.idxOf? id := by
  rw [ids, List.idxOf?, List.findIdx?_map]
  rfl

/-- The index of an id is its position. -/
theorem index?_eq (g : Graph W) (id : String) :
    g.index? id = if id ∈ g.ids then some (g.place id) else none := by
  rw [index?_eq_idxOf?, place]
  generalize g.ids = ids
  induction ids with
  | nil => rfl
  | cons x xs ih =>
    rw [List.idxOf?_cons, ih, List.idxOf_cons]
    by_cases hx : x == id
    · simp [eq_of_beq hx]
    · have hne : id ≠ x := fun e ↦ hx (by rw [e]; exact beq_self_eq_true x)
      by_cases hm : id ∈ xs <;> simp [hx, hne, hm]

/-- The arcs that the edges of a graph hang by, in the order of the edges: each at the position of
its `near` end, with the position of its `far` end, under its own position. -/
def arcs (near far : Edge W → String) (g : Graph W) : List (Nat × Arc W) :=
  g.edges.zipIdx.map fun x ↦ (g.place (near x.1), ⟨g.place (far x.1), x.2, x.1⟩)

theorem key_lt_of_mem_arcs {near far : Edge W → String} {g : Graph W} {x : Nat × Arc W}
    (h : x ∈ g.arcs near far) : x.2.key < g.edges.length := by
  obtain ⟨y, hy, rfl⟩ := List.mem_map.1 h
  simpa using List.snd_lt_of_mem_zipIdx hy

/-- A node under an old id moves no arc, and one under a new id comes after all others. -/
theorem place_addNode {g : Graph W} {id : String} (h : id ∈ g.ids) (n : Node) :
    (g.addNode n).place id = g.place id := by
  by_cases hn : n.id ∈ g.ids
  · rw [place, ids_addNode_of_mem hn, place]
  · rw [place, ids_addNode_of_not_mem hn, List.idxOf_append, if_pos h, place]

theorem arcs_addNode {near far : Edge W → String} {g : Graph W}
    (hnear : ∀ e ∈ g.edges, near e ∈ g.ids) (hfar : ∀ e ∈ g.edges, far e ∈ g.ids) (n : Node) :
    (g.addNode n).arcs near far = g.arcs near far := by
  refine List.map_congr_left fun x hx ↦ ?_
  have hm : x.1 ∈ g.edges := List.fst_mem_of_mem_zipIdx hx
  rw [place_addNode (hnear x.1 hm), place_addNode (hfar x.1 hm)]

/-- One more edge is one more arc, under the number of edges before it as its key. -/
theorem arcs_withEdge (near far : Edge W → String) (g : Graph W) (e : Edge W)
    (hs : e.source ∈ g.ids) (ht : e.target ∈ g.ids) :
    (g.withEdge e hs ht).arcs near far =
      g.arcs near far ++ [(g.place (near e), ⟨g.place (far e), g.edges.length, e⟩)] := by
  simp only [arcs, withEdge, List.zipIdx_append, List.map_append]
  simp [place, ids]

end Graph

/-! ### The invariant -/

namespace Arena

open Adjacency (Hangs)

/-- An arena holds a graph. -/
structure Holds (a : Arena W) (g : Graph W) : Prop where
  indices : a.indices = g.ids.zipIdx
  slots : a.slots.map Prod.fst = List.range g.nodes.length
  nodeAt? : ∀ i, a.nodeAt? i = g.nodes[i]?
  leaving : Hangs a.leaving g.nodes.length (g.arcs Edge.source Edge.target)
  entering : Hangs a.entering g.nodes.length (g.arcs Edge.target Edge.source)
  nextIndex : a.nextIndex = g.nodes.length
  nextKey : a.nextKey = g.edges.length
  cache : ∀ es, a.cache = some es → es = g.edges

theorem find?_zipIdx (ids : List String) (k : Nat) (id : String) :
    Assoc.find? id (ids.zipIdx k) = if id ∈ ids then some (k + ids.idxOf id) else none := by
  induction ids generalizing k with
  | nil => rfl
  | cons x xs ih =>
    rw [List.zipIdx_cons, Assoc.find?_cons, ih, List.idxOf_cons]
    by_cases hx : x == id
    · simp [eq_of_beq hx]
    · have hne : id ≠ x := fun e ↦ hx (by rw [e]; exact beq_self_eq_true x)
      by_cases hm : id ∈ xs
      · simp [hx, hne, hm, Nat.add_assoc, Nat.add_comm 1]
      · simp [hx, hne, hm]

namespace Holds

variable {a : Arena W} {g : Graph W}

theorem empty : Holds (Arena.empty : Arena W) Graph.empty where
  indices := rfl
  slots := rfl
  nodeAt? _ := rfl
  leaving := .empty
  entering := .empty
  nextIndex := rfl
  nextKey := rfl
  cache _ h := nomatch h

theorem index? (h : Holds a g) (id : String) : a.index? id = g.index? id := by
  rw [Arena.index?, h.indices, find?_zipIdx, g.index?_eq, Graph.place, Nat.zero_add]

theorem index?_of_mem (h : Holds a g) {id : String} (hm : id ∈ g.ids) :
    a.index? id = some (g.place id) := by rw [h.index?, g.index?_eq, if_pos hm]

theorem index?_of_not_mem (h : Holds a g) {id : String} (hm : id ∉ g.ids) :
    a.index? id = none := by rw [h.index?, g.index?_eq, if_neg hm]

/-! ### Nodes come in -/

/-- **A node under an old id** changes what is in its slot. -/
theorem addNode_of_mem (h : Holds a g) {n : Node} (hn : n.id ∈ g.ids) :
    Holds (a.addNode n).1 (g.addNode n) := by
  have hlen : (g.addNode n).nodes.length = g.nodes.length := by
    rw [← Graph.length_ids, Graph.ids_addNode_of_mem hn, Graph.length_ids]
  have hslot : g.place n.id ∈ a.slots.map Prod.fst := by
    rw [h.slots]
    exact List.mem_range.2 (Graph.place_lt hn)
  simp only [Arena.addNode, h.index?_of_mem hn]
  exact {
    indices := by rw [Graph.ids_addNode_of_mem hn]; exact h.indices
    slots := by rw [hlen, ← h.slots]; exact Assoc.keys_put_of_mem hslot n
    nodeAt? := fun i ↦ by
      rw [Arena.nodeAt?, Assoc.find?_put, Graph.addNode, Graph.getElem?_upsert_of_mem hn,
        ← h.nodeAt?]
      simp only [beq_iff_eq]
      rfl
    leaving := by
      rw [hlen, Graph.arcs_addNode (fun _ ↦ Graph.source_mem_ids) fun _ ↦ Graph.target_mem_ids]
      exact h.leaving
    entering := by
      rw [hlen, Graph.arcs_addNode (fun _ ↦ Graph.target_mem_ids) fun _ ↦ Graph.source_mem_ids]
      exact h.entering
    nextIndex := hlen ▸ h.nextIndex
    nextKey := h.nextKey
    cache := h.cache }

/-- **A node under a new id** has the next index, a slot, and two groups without arcs. -/
theorem addNode_of_not_mem (h : Holds a g) {n : Node} (hn : n.id ∉ g.ids) :
    Holds (a.addNode n).1 (g.addNode n) := by
  have hnodes : (g.addNode n).nodes = g.nodes ++ [n] := Graph.upsert_of_not_mem hn
  have hlen : (g.addNode n).nodes.length = g.nodes.length + 1 := by rw [hnodes]; simp
  have hindex : n.id ∉ a.indices.map Prod.fst :=
    Assoc.find?_eq_none_iff.1 (h.index?_of_not_mem hn)
  have hslot : g.nodes.length ∉ a.slots.map Prod.fst := by
    rw [h.slots, List.mem_range]
    exact Nat.lt_irrefl _
  simp only [Arena.addNode, h.index?_of_not_mem hn, h.nextIndex]
  exact {
    indices := by
      rw [Graph.ids_addNode_of_not_mem hn, List.zipIdx_append, ← h.indices, g.length_ids,
        Nat.zero_add]
      exact Assoc.put_of_not_mem hindex _
    slots := by
      rw [hlen, List.range_succ, ← h.slots]
      exact Assoc.keys_put_of_not_mem hslot n
    nodeAt? := fun i ↦ by
      rw [Arena.nodeAt?, Assoc.find?_put, hnodes, List.getElem?_append]
      have hi := h.nodeAt? i
      rw [Arena.nodeAt?] at hi
      rw [hi]
      -- Only the place behind all nodes is new.
      rcases Nat.lt_trichotomy i g.nodes.length with hlt | rfl | hgt
      · simp [hlt, Nat.ne_of_gt hlt]
      · simp
      · simp [Nat.not_lt_of_gt hgt, Nat.ne_of_lt hgt, Nat.sub_ne_zero_of_lt hgt]
    leaving := by
      rw [hlen, Graph.arcs_addNode (fun _ ↦ Graph.source_mem_ids) fun _ ↦ Graph.target_mem_ids]
      exact h.leaving.open_group
    entering := by
      rw [hlen, Graph.arcs_addNode (fun _ ↦ Graph.target_mem_ids) fun _ ↦ Graph.source_mem_ids]
      exact h.entering.open_group
    nextIndex := hlen.symm
    nextKey := h.nextKey
    cache := h.cache }

theorem addNode (h : Holds a g) (n : Node) : Holds (a.addNode n).1 (g.addNode n) := by
  by_cases hn : n.id ∈ g.ids
  · exact h.addNode_of_mem hn
  · exact h.addNode_of_not_mem hn

/-! ### Edges come in -/

/-- **An edge between two nodes** becomes an arc in either adjacency, under the next key. -/
theorem addEdge_eq (h : Holds a g) {e : Edge W} (hs : e.source ∈ g.ids) (ht : e.target ∈ g.ids) :
    a.addEdge e =
      ({ a with
        leaving := a.leaving.link (g.place e.source) (g.place e.target) a.nextKey e
        entering := a.entering.link (g.place e.target) (g.place e.source) a.nextKey e
        nextKey := a.nextKey + 1
        cache := none }, .ok ()) := by
  simp only [Arena.addEdge, h.index?_of_mem hs, h.index?_of_mem ht]

theorem addEdge_of_source_not_mem (h : Holds a g) {e : Edge W} (hs : e.source ∉ g.ids) :
    a.addEdge e = (a, .error (.invalidData (.sourceMissing e.source))) := by
  simp only [Arena.addEdge, h.index?_of_not_mem hs]

theorem addEdge_of_target_not_mem (h : Holds a g) {e : Edge W} (hs : e.source ∈ g.ids)
    (ht : e.target ∉ g.ids) :
    a.addEdge e = (a, .error (.invalidData (.targetMissing e.target))) := by
  simp only [Arena.addEdge, h.index?_of_mem hs, h.index?_of_not_mem ht]

theorem addEdge_of_mem (h : Holds a g) {e : Edge W} (hs : e.source ∈ g.ids)
    (ht : e.target ∈ g.ids) : Holds (a.addEdge e).1 (g.withEdge e hs ht) := by
  -- Keys are positions, so the number of edges is a key that no arc has.
  have hkey {near far : Edge W → String} : ∀ x ∈ g.arcs near far, x.2.key ≠ g.edges.length :=
    fun x hx ↦ Nat.ne_of_lt (Graph.key_lt_of_mem_arcs hx)
  rw [h.addEdge_eq hs ht, h.nextKey]
  exact {
    indices := h.indices
    slots := h.slots
    nodeAt? := h.nodeAt?
    leaving := by
      rw [Graph.arcs_withEdge]
      exact h.leaving.link (Graph.place_lt hs) e hkey
    entering := by
      rw [Graph.arcs_withEdge]
      exact h.entering.link (Graph.place_lt ht) e hkey
    nextIndex := h.nextIndex
    nextKey := by simp [Graph.withEdge]
    cache := fun _ hc ↦ nomatch hc }

theorem addEdge (h : Holds a g) (e : Edge W) : Holds (a.addEdge e).1 (g.offerEdge e) := by
  rw [Graph.offerEdge]
  split
  · rename_i hs
    split
    · rename_i ht
      exact h.addEdge_of_mem hs ht
    · rename_i ht
      rw [h.addEdge_of_target_not_mem hs ht]
      exact h
  · rename_i hs
    rw [h.addEdge_of_source_not_mem hs]
    exact h

end Holds

end Arena

end ConceptAtlas
