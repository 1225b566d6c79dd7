import ConceptAtlas.Graph.Record

/-!
# Concept graphs

A concept graph is a list of nodes and a list of edges, both in the order in which they came. Its
type holds what every operation keeps: no two nodes have one id, and both ends of an edge are nodes.
`addNode` puts a node in the place of one with the same id or appends it; `addEdge` appends an edge,
and fails exactly when an end is missing.

All that can be observed of a graph is read off the two lists. The edges at a node keep their order,
and a loop is a neighbour once.
-/

namespace ConceptAtlas

/-- A directed graph with several edges between two nodes, loops included. -/
structure Graph (W : Type) where
  nodes : List Node
  edges : List (Edge W)
  nodup_ids : (nodes.map Node.id).Nodup
  source_mem : ∀ e ∈ edges, e.source ∈ nodes.map Node.id
  target_mem : ∀ e ∈ edges, e.target ∈ nodes.map Node.id

namespace Graph

variable {W : Type}

/-- A graph is its two lists. -/
@[ext]
theorem ext {g h : Graph W} (hn : g.nodes = h.nodes) (he : g.edges = h.edges) : g = h := by
  cases g
  cases h
  simp_all

/-- The graph without nodes. -/
def empty : Graph W := ⟨[], [], by simp, by simp, by simp⟩

instance : Inhabited (Graph W) := ⟨empty⟩

/-! ### Looking up -/

/-- The ids of the nodes. -/
def ids (g : Graph W) : List String := g.nodes.map Node.id

/-- The node with an id. -/
def node? (g : Graph W) (id : String) : Option Node := g.nodes.find? (·.id == id)

/-- The position of the node with an id. -/
def index? (g : Graph W) (id : String) : Option Nat := g.nodes.findIdx? (·.id == id)

/-- Whether there is a node with an id. -/
def contains (g : Graph W) (id : String) : Bool := g.nodes.any (·.id == id)

theorem contains_iff {g : Graph W} {id : String} : g.contains id = true ↔ id ∈ g.ids := by
  simp [contains, ids]

/-- The node with an id, or the fault that there is none. -/
def node (g : Graph W) (id : String) : Except Fault Node :=
  match g.node? id with
  | some n => .ok n
  | none => .error (.notFound (.node id))

/-! ### Building -/

/-- A list of nodes with one more: in the place of the one with the same id, else at the end. -/
def upsert (n : Node) : List Node → List Node
  | [] => [n]
  | m :: ms => if m.id = n.id then n :: ms else m :: upsert n ms

theorem map_id_upsert (n : Node) (ns : List Node) :
    (upsert n ns).map Node.id =
      if n.id ∈ ns.map Node.id then ns.map Node.id else ns.map Node.id ++ [n.id] := by
  induction ns with
  | nil => simp [upsert]
  | cons m ms ih =>
    rw [upsert]
    by_cases h : m.id = n.id
    · simp [h]
    · have h' : ¬ n.id = m.id := fun e ↦ h e.symm
      by_cases hm : n.id ∈ ms.map Node.id
      · rw [if_neg h, List.map_cons, ih, if_pos hm, List.map_cons,
          if_pos (List.mem_cons_of_mem _ hm)]
      · rw [if_neg h, List.map_cons, ih, if_neg hm, List.map_cons, if_neg, List.cons_append]
        simp only [List.mem_cons, not_or]
        exact ⟨h', hm⟩

theorem mem_map_id_upsert {id : String} {n : Node} {ns : List Node} :
    id ∈ (upsert n ns).map Node.id ↔ id ∈ ns.map Node.id ∨ id = n.id := by
  rw [map_id_upsert]
  split
  · rename_i h
    exact ⟨Or.inl, fun hid ↦ hid.elim (fun hm ↦ hm) (fun e ↦ e ▸ h)⟩
  · simp

theorem nodup_map_id_upsert {n : Node} {ns : List Node} (h : (ns.map Node.id).Nodup) :
    ((upsert n ns).map Node.id).Nodup := by
  rw [map_id_upsert]
  split
  · exact h
  · rename_i hn
    refine List.nodup_append.2 ⟨h, by simp, ?_⟩
    intro a ha b hb e
    rw [List.mem_singleton] at hb
    exact hn (hb ▸ e ▸ ha)

/-- The graph with one more node, or with another node of the same id in its place. -/
def addNode (g : Graph W) (n : Node) : Graph W where
  nodes := upsert n g.nodes
  edges := g.edges
  nodup_ids := nodup_map_id_upsert g.nodup_ids
  source_mem e he := mem_map_id_upsert.2 (.inl (g.source_mem e he))
  target_mem e he := mem_map_id_upsert.2 (.inl (g.target_mem e he))

/-- The graph with one more edge between two of its nodes. -/
def withEdge (g : Graph W) (e : Edge W) (hs : e.source ∈ g.ids) (ht : e.target ∈ g.ids) :
    Graph W where
  nodes := g.nodes
  edges := g.edges ++ [e]
  nodup_ids := g.nodup_ids
  source_mem x hx := by
    rcases List.mem_append.1 hx with hx | hx
    · exact g.source_mem x hx
    · rw [List.mem_singleton.1 hx]
      exact hs
  target_mem x hx := by
    rcases List.mem_append.1 hx with hx | hx
    · exact g.target_mem x hx
    · rw [List.mem_singleton.1 hx]
      exact ht

/-- The graph with one more edge, if both its ends are there. -/
def addEdge (g : Graph W) (e : Edge W) : Except Fault (Graph W) :=
  if hs : e.source ∈ g.ids then
    if ht : e.target ∈ g.ids then .ok (g.withEdge e hs ht)
    else .error (.invalidData (.targetMissing e.target))
  else .error (.invalidData (.sourceMissing e.source))

/-- Whether both ends of an edge are nodes of the graph. -/
def joins (g : Graph W) (e : Edge W) : Bool := g.contains e.source && g.contains e.target

/-- The graph with one more edge; an edge with a missing end is dropped. -/
def offerEdge (g : Graph W) (e : Edge W) : Graph W :=
  if hs : e.source ∈ g.ids then
    if ht : e.target ∈ g.ids then g.withEdge e hs ht else g
  else g

/-- The graph of nodes and edges, added in their order; edges with a missing end are dropped. -/
def ofRecords (nodes : List Node) (edges : List (Edge W)) : Graph W :=
  edges.foldl offerEdge (nodes.foldl addNode empty)

/-! ### The edges at a node -/

/-- The edges that leave a node. -/
def outgoing (g : Graph W) (id : String) : List (Edge W) := g.edges.filter (·.source == id)

/-- The edges that enter a node. -/
def incoming (g : Graph W) (id : String) : List (Edge W) := g.edges.filter (·.target == id)

/-- The other end of an edge at a node, if it is at the node at all. -/
def otherEnd? (id : String) (e : Edge W) : Option String :=
  if e.source == id then some e.target
  else if e.target == id then some e.source
  else none

/-- The edges at a node, each with the id of its other end; a loop comes once. -/
def neighbors (g : Graph W) (id : String) : List (String × Edge W) :=
  g.edges.filterMap fun e ↦ (otherEnd? id e).map (·, e)

/-- The number of edges that enter a node. -/
def inDegree (g : Graph W) (id : String) : Nat := (g.incoming id).length

/-- The number of edges that leave a node. -/
def outDegree (g : Graph W) (id : String) : Nat := (g.outgoing id).length

/-- The number of edge ends at a node; a loop has two. -/
def degree (g : Graph W) (id : String) : Nat := g.inDegree id + g.outDegree id

/-- A search has ahead of it what is at nodes that were not seen: edges, or the nodes themselves.
When it sees one more node, what is at that node is ahead no longer. -/
theorem length_filter_not_seen {α : Type} (es : List α) (nodeOf : α → String)
    {seen : List String} {id : String} (h : seen.contains id = false) :
    (es.filter fun e ↦ !(seen ++ [id]).contains (nodeOf e)).length +
      (es.filter fun e ↦ nodeOf e == id).length =
      (es.filter fun e ↦ !seen.contains (nodeOf e)).length := by
  have hhere : (es.filter fun e ↦ !seen.contains (nodeOf e)).filter (nodeOf · == id) =
      es.filter fun e ↦ nodeOf e == id := by
    rw [List.filter_filter]
    refine List.filter_congr fun e _ ↦ ?_
    cases hs : nodeOf e == id
    · rfl
    · rw [eq_of_beq hs, h]
      rfl
  have hrest : (es.filter fun e ↦ !seen.contains (nodeOf e)).filter (fun e ↦ ¬ nodeOf e == id) =
      es.filter fun e ↦ !(seen ++ [id]).contains (nodeOf e) := by
    rw [List.filter_filter]
    refine List.filter_congr fun e _ ↦ ?_
    simp [Bool.and_comm]
  have hsplit := List.length_eq_countP_add_countP (fun e : α ↦ nodeOf e == id)
    (l := es.filter fun e ↦ !seen.contains (nodeOf e))
  rw [List.countP_eq_length_filter, List.countP_eq_length_filter, hhere, hrest] at hsplit
  rw [hsplit, Nat.add_comm]

/-! ### Describing -/

/-- The numbers of nodes and edges in a few words. -/
def summary (g : Graph W) : String := s!"{g.nodes.length} nodes, {g.edges.length} edges"

/-- The numbers of nodes and edges as the record of a graph. -/
def describe (g : Graph W) : String :=
  s!"GraphData(nodes={g.nodes.length}, edges={g.edges.length})"

end Graph

end ConceptAtlas
